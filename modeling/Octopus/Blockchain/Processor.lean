import Octopus.Transition.Runs

/-!
# Transactions and blocks

`AsMessage`, `ApplyTransaction` and `Process`.  The importer keeps one virtual machine for a
block, the miner builds one for every transaction; both run a transaction in the same
context if they agree on the coinbase.
-/

namespace Octopus

/-- What the execution reads of the chain; `GetHashFn` is given the parent hash and the number of
the running block. -/
structure ChainContext where
  config : ChainConfig
  getHash : Hash → Nat → Nat → Hash
  enablePreimageRecording : Bool := false

inductive TxError where
  | invalidSignature
  | transition (error : TransitionError)
  deriving DecidableEq

/-- `NewOVMBlockContext`, with the author of the `octell` engine, which is the
coinbase of the header. -/
def newOVMBlockContext (chain : ChainContext) (header : Header) (author : Option Address) :
    BlockContext where
  getHash := chain.getHash header.parentHash header.number
  coinbase := author.getD header.coinbase
  gasLimit := header.gasLimit
  blockNumber := header.number
  time := header.time
  difficulty := header.difficulty
  baseFee := header.baseFee.map Int.ofNat
  random := if header.difficulty = 0 then some header.mixDigest else none

/-- `NewOVM` with the context that `Reset` gives it for a message. -/
def newOVM (chain : ChainContext) (context : BlockContext) (message : Message) : OVM where
  context := context
  txContext := { origin := message.sender, gasPrice := message.gasPrice }
  chainConfig := chain.config
  enablePreimageRecording := chain.enablePreimageRecording

namespace Transaction

def message (tx : Transaction) (sender : Address) : Message where
  sender := sender
  recipient := tx.recipient
  nonce := tx.nonce.toNat
  value := tx.value
  gas := tx.gas.toNat
  gasPrice := tx.gasPrice
  gasFeeCap := some tx.gasPrice
  data := tx.data
  isFake := false
  nonce_lt := tx.nonce.isLt
  gas_lt := tx.gas.isLt

def asMessage [Encoding] (tx : Transaction) : Option Message :=
  (Encoding.sender tx).map tx.message

end Transaction

variable [Crypto] [Encoding]

/-- `applyTransaction`: apply the message of a transaction in a block context,
and add what it used to a counter. -/
def applyTransaction (chain : ChainContext) (fuel : Nat) (context : BlockContext)
    (message : Message) (blockNumber : Nat) (blockHash : Hash) (tx : Transaction)
    (usedGas : Nat) : Go TransitionState (Except TxError (Receipt × Nat)) := fun state =>
  let ovm := newOVM chain context message
  match applyMessage ovm (ovm.run fuel) message state with
  | .error fault => .error fault
  | .ok (.error error, after) => .ok (.error (.transition error), after)
  | .ok (.ok result, after) =>
    .ok (.ok ({ txHash := Encoding.txHash tx, gasUsed := result.usedGas
                blockHash := blockHash, blockNumber := blockNumber },
      (usedGas + result.usedGas) % uint64Size), after)

def applyTransactionFor (chain : ChainContext) (fuel : Nat) (author : Option Address)
    (header : Header) (tx : Transaction) (usedGas : Nat) :
    Go TransitionState (Except TxError (Receipt × Nat)) :=
  match tx.asMessage with
  | none => return .error .invalidSignature
  | some message =>
    applyTransaction chain fuel (newOVMBlockContext chain header author) message header.number
      header.hash tx usedGas

def processTransactions (chain : ChainContext) (fuel : Nat) (block : Block) :
    List (Option Transaction) → Nat → Go TransitionState (Except TxError (List Receipt × Nat))
  | [], usedGas => return .ok ([], usedGas)
  | none :: _, _ => Library.Computation.fault nilDereference
  | some tx :: rest, usedGas =>
    match tx.asMessage with
    | none => return .error .invalidSignature
    | some message => do
        match ← applyTransaction chain fuel (newOVMBlockContext chain block.header none) message
            block.number block.hash tx usedGas with
        | .error error => return .error error
        | .ok (receipt, usedGas) =>
          match ← processTransactions chain fuel block rest usedGas with
          | .error error => return .error error
          | .ok (receipts, usedGas) => return .ok (receipt :: receipts, usedGas)

/-- `Process`: run the transactions of a block on a state, with a gas pool of
the block's limit. -/
def process (chain : ChainContext) (fuel : Nat) (block : Block) :
    Go OperationDB (Except TxError (List Receipt × Nat)) := fun db =>
  match processTransactions chain fuel block block.transactions 0
      { db := db, gasPool := block.header.gasLimit } with
  | .error fault => .error fault
  | .ok (result, after) => .ok (result, after.db)

end Octopus
