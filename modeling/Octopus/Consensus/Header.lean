import Octopus.Consensus.Octell
import Octopus.Consensus.Rules
import Octopus.Rlp.Numbers

/-!
# Verification of one header

The seal of a header, and the rules that the `octell` engine applies to a header and its
parent.  The digest and the result of the proof of work are a parameter.
-/

namespace Octopus

structure ChainHeaderReader where
  config : ChainConfig
  getHeader : Hash → Nat → Option Header
  getTd : Hash → Nat → Option Nat

def Header.parentNumber (header : Header) : Nat :=
  toUint64 ((header.numberU64 : Int) - 1)

/-- The fields that `SealHash` encodes, in order.  The extra data of the header
is commented out there. -/
def Header.sealedFields (header : Header) : Bytes :=
  Rlp.writeBytes (wordBytes header.parentHash) ++
  Rlp.writeBytes (wordBytes header.uncleHash) ++
  Rlp.writeBytes (addressBytes header.coinbase) ++
  Rlp.writeBytes (wordBytes header.root) ++
  Rlp.writeBytes (wordBytes header.txHash) ++
  Rlp.writeBytes (wordBytes header.receiptHash) ++
  Rlp.writeBigInt header.difficulty ++
  Rlp.writeBigInt header.number ++
  Rlp.writeUint64 header.gasLimit ++
  Rlp.writeUint64 header.gasUsed ++
  Rlp.writeUint64 header.time ++
  match header.baseFee with
  | none => []
  | some baseFee => Rlp.writeBigInt baseFee

def Header.sealHash [Crypto] (header : Header) : Hash :=
  Crypto.keccak256 (Rlp.list header.sealedFields)

/-- What `verifySeal` reads of an engine.  The proof of work maps block number, seal hash and
nonce to digest and result. -/
structure PowSettings where
  powMode : PowMode
  fakeFail : Nat
  /-- The dataset for a number has been generated. -/
  generated : Nat → Bool
  hashimotoFull : Nat → Hash → BitVec 64 → Hash × Hash
  hashimotoLight : Nat → Hash → BitVec 64 → Hash × Hash

/-- `Octell` as far as it verifies headers: an engine that may leave the seals
to a shared one. -/
inductive PowEngine where
  | alone (settings : PowSettings)
  | sharing (settings : PowSettings) (shared : PowEngine)

namespace PowEngine

def settings : PowEngine → PowSettings
  | alone settings => settings
  | sharing settings _ => settings

end PowEngine

namespace PowSettings

def fakes (settings : PowSettings) : Bool :=
  settings.powMode = .fake ∨ settings.powMode = .fullFake

def verifyFakeSeal (settings : PowSettings) (header : Header) : Verdict :=
  if settings.fakeFail = header.numberU64 then some .invalidPoW else none

/-- Digest and result for a header, from the dataset if it is asked for and
generated. -/
def hashimoto [Crypto] (settings : PowSettings) (fulldag : Bool) (header : Header) : Hash × Hash :=
  if fulldag ∧ settings.generated header.numberU64 then
    settings.hashimotoFull header.numberU64 header.sealHash header.nonce
  else settings.hashimotoLight header.numberU64 header.sealHash header.nonce

def verifyOwnSeal [Crypto] (settings : PowSettings) (header : Header) (fulldag : Bool) : Verdict :=
  if header.difficulty = 0 then some .nonPositiveDifficulty
  else
    let (digest, result) := settings.hashimoto fulldag header
    if header.mixDigest ≠ digest then some .invalidMixDigest
    else if 2 ^ 256 / header.difficulty < result.toNat then some .invalidPoW
    else none

end PowSettings

def PowEngine.verifySeal [Crypto] (header : Header) (fulldag : Bool) : PowEngine → Verdict
  | alone settings =>
    if settings.fakes then settings.verifyFakeSeal header
    else settings.verifyOwnSeal header fulldag
  | sharing settings shared =>
    if settings.fakes then settings.verifyFakeSeal header
    else verifySeal header fulldag shared

def allowedFutureBlockTimeSeconds : Int := 15

/-- The part of `verifyHeader` that depends on whether London rules apply. -/
def verifyFees (config : ChainConfig) (parent header : Header) : Except Fault Verdict :=
  if config.isLondon header.number then verifyEip1559Header config parent header
  else
    match header.baseFee with
    | some baseFee => .ok (some (.baseFeeBeforeFork baseFee))
    | none => .ok (verifyGaslimit parent.gasLimit header.gasLimit)

def verifyStamp [Crypto] (config : ChainConfig) (header parent : Header) (uncle : Bool)
    (unixNow : Int) : Verdict :=
  if !uncle ∧ toUint64 (unixNow + allowedFutureBlockTimeSeconds) < header.time then
    some .futureBlock
  else if header.time ≤ parent.time then some .olderBlockTime
  else if calcDifficulty config header.time parent ≠ header.difficulty then
    some (.wrongDifficulty header.difficulty (calcDifficulty config header.time parent))
  else if Params.maxGasLimit < header.gasLimit then
    some (.gasLimitTooLarge header.gasLimit Params.maxGasLimit)
  else if header.gasLimit < header.gasUsed then
    some (.gasUsedTooLarge header.gasUsed header.gasLimit)
  else none

/-- `verifyHeader`.  The last check, of the extra data around the DAO fork, accepts everything. -/
def PowEngine.verifyHeader [Crypto] (engine : PowEngine) (config : ChainConfig)
    (header parent : Header) (uncle checkSeal : Bool) (unixNow : Int) : Except Fault Verdict :=
  match verifyStamp config header parent uncle unixNow with
  | some error => .ok (some error)
  | none =>
    match verifyFees config parent header with
    | .error fault => .error fault
    | .ok (some error) => .ok (some error)
    | .ok none =>
      if (header.number : Int) - parent.number ≠ 1 then .ok (some .invalidNumber)
      else if checkSeal then .ok (engine.verifySeal header false)
      else .ok none

variable [Crypto] [Encoding]

/-- The header before the position if the hashes fit, and for the first position the given
ancestor or else the parent in the chain. -/
def batchParent (chain : ChainHeaderReader) (headers : List Header) (ancestor : Option Header) :
    Nat → Option Header
  | 0 =>
    match ancestor with
    | some parent => some parent
    | none => headers[0]?.bind fun first => chain.getHeader first.parentHash first.parentNumber
  | index + 1 =>
    match headers[index]?, headers[index + 1]? with
    | some before, some here => if before.hash = here.parentHash then some before else none
    | _, _ => none

def PowEngine.verifyHeaderWorker (engine : PowEngine) (chain : ChainHeaderReader)
    (headers : List Header) (unixNow : Int) (index : Nat) (header : Header)
    (checkSeal : Bool) : Except Fault Verdict :=
  match batchParent chain headers none index with
  | none => .ok (some .unknownAncestor)
  | some parent => engine.verifyHeader chain.config header parent false checkSeal unixNow

def PowEngine.sequentialVerdicts (engine : PowEngine) (chain : ChainHeaderReader)
    (batch : List (Header × Bool)) (unixNow : Int) : List (Except Fault Verdict) :=
  batch.mapIdx fun index entry =>
    engine.verifyHeaderWorker chain (batch.map Prod.fst) unixNow index entry.1 entry.2

end Octopus
