import Octopus.Entity.Basic

/-!
# Parameters, headers, transactions and blocks

The gas schedule, the fork switches of a chain configuration and the rules derived from
them.  Hashes of structured data and the recovery of senders are the operations of the
class `Encoding`.
-/

namespace Octopus

namespace Params

def callValueTransferGas : Nat := 9000
def callNewAccountGas : Nat := 25000
def txGas : Nat := 21000
def txDataZeroGas : Nat := 4
def txDataNonZeroGasFrontier : Nat := 68
def quadCoeffDiv : Nat := 512
def logDataGas : Nat := 8
def callStipend : Nat := 2300
def keccak256Gas : Nat := 30
def keccak256WordGas : Nat := 6
def sstoreSentryGasEIP2200 : Nat := 2300
def sstoreSetGasEIP2200 : Nat := 20000
def sstoreResetGasEIP2200 : Nat := 5000
def coldAccountAccessCostEIP2929 : Nat := 2600
def coldSloadCostEIP2929 : Nat := 2100
def warmStorageReadCostEIP2929 : Nat := 100
def txAccessListStorageKeyGas : Nat := 1900
def sstoreClearsScheduleRefundEIP3529 : Nat :=
  sstoreResetGasEIP2200 - coldSloadCostEIP2929 + txAccessListStorageKeyGas
def jumpdestGas : Nat := 1
def createDataGas : Nat := 200
def callCreateDepth : Nat := 1024
def expGas : Nat := 10
def expByteEIP158 : Nat := 50
def logGas : Nat := 375
def logTopicGas : Nat := 375
def copyGas : Nat := 3
def stackLimit : Nat := 1024
def createGas : Nat := 32000
def create2Gas : Nat := 32000
def memoryGas : Nat := 3
def selfdestructGasEIP150 : Nat := 5000
def createBySelfdestructGas : Nat := 25000
def maxCodeSize : Nat := 24576
def ecrecoverGas : Nat := 3000
def sha256BaseGas : Nat := 60
def sha256PerWordGas : Nat := 12
def ripemd160BaseGas : Nat := 600
def ripemd160PerWordGas : Nat := 120
def identityBaseGas : Nat := 15
def identityPerWordGas : Nat := 3

end Params

/-- `entity.ChainConfig`: the chain identifier and the block from which each
fork is active. -/
structure ChainConfig where
  chainID : Option Int := none
  homesteadBlock : Option Nat := none
  eip150Block : Option Nat := none
  eip155Block : Option Nat := none
  eip158Block : Option Nat := none
  byzantiumBlock : Option Nat := none
  constantinopleBlock : Option Nat := none
  petersburgBlock : Option Nat := none
  istanbulBlock : Option Nat := none
  berlinBlock : Option Nat := none
  londonBlock : Option Nat := none
  muirGlacierBlock : Option Nat := none
  arrowGlacierBlock : Option Nat := none
  terminalTotalDifficulty : Option Nat := none
  deriving DecidableEq

def isForked (fork : Option Nat) (head : Nat) : Bool :=
  match fork with
  | none => false
  | some first => first ≤ head

structure Rules where
  chainID : Int
  isHomestead : Bool
  isEIP150 : Bool
  isEIP155 : Bool
  isEIP158 : Bool
  isByzantium : Bool
  isConstantinople : Bool
  isPetersburg : Bool
  isIstanbul : Bool
  isBerlin : Bool
  isLondon : Bool
  isMerge : Bool
  deriving DecidableEq

namespace ChainConfig

variable (config : ChainConfig) (number : Nat)

def isHomestead : Bool :=
  isForked config.homesteadBlock number

def isLondon : Bool :=
  isForked config.londonBlock number

def isMuirGlacier : Bool :=
  isForked config.muirGlacierBlock number

def isArrowGlacier : Bool :=
  isForked config.arrowGlacierBlock number

def isEIP158 : Bool :=
  isForked config.eip158Block number

def isByzantium : Bool :=
  isForked config.byzantiumBlock number

def isConstantinople : Bool :=
  isForked config.constantinopleBlock number

def isPetersburg : Bool :=
  isForked config.petersburgBlock number ||
    config.petersburgBlock.isNone && isForked config.constantinopleBlock number

/-- The rules of one block.  The source fixes the London flag to true whatever
the configuration says. -/
def rules (isMerge : Bool) : Rules where
  chainID := config.chainID.getD 0
  isHomestead := config.isHomestead number
  isEIP150 := isForked config.eip150Block number
  isEIP155 := isForked config.eip155Block number
  isEIP158 := config.isEIP158 number
  isByzantium := config.isByzantium number
  isConstantinople := config.isConstantinople number
  isPetersburg := config.isPetersburg number
  isIstanbul := isForked config.istanbulBlock number
  isBerlin := isForked config.berlinBlock number
  isLondon := true
  isMerge := isMerge

end ChainConfig

structure Header where
  parentHash : Hash := 0
  uncleHash : Hash := 0
  coinbase : Address := 0
  root : Hash := 0
  txHash : Hash := 0
  receiptHash : Hash := 0
  difficulty : Nat := 0
  number : Nat := 0
  gasLimit : Nat := 0
  gasUsed : Nat := 0
  time : Nat := 0
  extra : Bytes := []
  mixDigest : Hash := 0
  nonce : BitVec 64 := 0
  baseFee : Option Nat := none
  deriving DecidableEq

/-- What an encoded header decodes to: a missing base fee is encoded like a base
fee of zero. -/
def Header.stored (header : Header) : Header :=
  { header with baseFee := some (header.baseFee.getD 0) }

/-- `block.Transaction`.  The fee cap of every type is its gas price; the tip cap is not read. -/
structure Transaction where
  nonce : BitVec 64
  gasPrice : Int
  gas : BitVec 64
  recipient : Option Address
  value : Int
  data : Bytes := []
  v : Int
  r : Int
  s : Int
  deriving DecidableEq

structure Receipt where
  txHash : Hash
  gasUsed : Nat
  blockHash : Hash
  blockNumber : Nat
  deriving DecidableEq

/-- `block.Block`.  A transaction read back from the database has no contents, every method on
it panics, and it is `none` here. -/
structure Block where
  header : Header
  uncles : List Header := []
  transactions : List (Option Transaction) := []
  deriving DecidableEq

/-- The hashes of headers and transactions, the roots of their lists, and the sender that the
London signer of chain 666 recovers.  The hash of a header is that of its encoding. -/
class Encoding where
  headerHash : Header → Hash
  headerHash_stored : ∀ header, headerHash header.stored = headerHash header
  txHash : Transaction → Hash
  txRoot : List Transaction → Hash
  receiptRoot : List Receipt → Hash
  sender : Transaction → Option Address

@[reducible]
def blankEncoding : Encoding where
  headerHash _ := 0
  headerHash_stored _ := rfl
  txHash _ := 0
  txRoot _ := 0
  receiptRoot _ := 0
  sender _ := none

def Header.numberU64 (header : Header) : Nat :=
  header.number % uint64Size

variable [Encoding]

def Header.hash (header : Header) : Hash :=
  Encoding.headerHash header

def Block.hash (block : Block) : Hash :=
  block.header.hash

def Block.number (block : Block) : Nat :=
  block.header.number

def Block.numberU64 (block : Block) : Nat :=
  block.header.numberU64

/-- The number below `NumberU64`, which wraps around at zero. -/
def Block.parentNumber (block : Block) : Nat :=
  (block.numberU64 + (uint64Size - 1)) % uint64Size

def Block.parentHash (block : Block) : Hash :=
  block.header.parentHash

def Block.txHashes (block : Block) : Except Fault (List Hash) :=
  block.transactions.mapM fun tx =>
    match tx with
    | some tx => .ok (Encoding.txHash tx)
    | none => .error nilDereference

/-- `NewBlock`, which has no uncles and leaves the uncle hash of the header as
it is. -/
def newBlock (header : Header) (transactions : List Transaction) (receipts : List Receipt) :
    Block where
  header := { header with
    txHash := if transactions = [] then emptyRoot else Encoding.txRoot transactions
    receiptHash := if receipts = [] then emptyRoot else Encoding.receiptRoot receipts }
  transactions := transactions.map some

end Octopus
