import Octopus.Blockchain.Processor

/-!
# The `octell` engine

The entry point for header batches, and the rewards and the state root at the end of
mining.  The checks of one header are a parameter; `VerifyHeaders` does not reach them on
the headers that the chain hands it, which are all nil.
-/

namespace Octopus

inductive PowMode where
  | normal
  | shared
  | test
  | fake
  | fullFake
  deriving DecidableEq

/-- `Octell`: the mode and the checks of a header against its parent. -/
structure Octell where
  powMode : PowMode
  verifyHeader : Header → Header → Bool

namespace Octell

/-- Any header in the mode `fullFake`, and else one that passes the checks on its parent. -/
def Accepts (engine : Octell) (parent header : Header) : Prop :=
  engine.powMode = .fullFake ∨ engine.verifyHeader parent header = true

instance (engine : Octell) (parent header : Header) : Decidable (engine.Accepts parent header) :=
  inferInstanceAs (Decidable (_ ∨ _))

/-- The workers follow the first nil pointer before any result is sent, but for `fullFake`. -/
def verifyNilHeaders (engine : Octell) (count : Nat) : Except Fault Unit :=
  if engine.powMode = .fullFake ∨ count = 0 then .ok () else .error nilDereference

end Octell

def frontierBlockReward : Int := 5000000000000000000

def byzantiumBlockReward : Int := 3000000000000000000

def constantinopleBlockReward : Int := 2000000000000000000

def blockReward (config : ChainConfig) (number : Nat) : Int :=
  if config.isConstantinople number then constantinopleBlockReward
  else if config.isByzantium number then byzantiumBlockReward
  else frontierBlockReward

/-- The reward of an uncle.  `big.Int.Div` rounds towards minus infinity for a
positive divisor. -/
def uncleReward (config : ChainConfig) (header uncle : Header) : Int :=
  ((uncle.number : Int) + 8 - header.number) * blockReward config header.number / 8

/-- The credits that `accumulateRewards` makes, in order. -/
def rewards (config : ChainConfig) (header : Header) (uncles : List Header) :
    List (Address × Int) :=
  uncles.map (fun uncle => (uncle.coinbase, uncleReward config header uncle)) ++
    [(header.coinbase, blockReward config header.number +
      uncles.length * (blockReward config header.number / 32))]

variable [Crypto] [Encoding]

def accumulateRewards (config : ChainConfig) (db : OperationDB) (header : Header)
    (uncles : List Header) : OperationDB :=
  (rewards config header uncles).foldl (fun db credit => db.addBalance credit.1 credit.2) db

/-- `Finalize`: the rewards, and the root of the state with them. -/
def finalize (config : ChainConfig) (header : Header) (db : OperationDB) (uncles : List Header) :
    Except Fault (Header × OperationDB) := do
  let (root, db) ←
    (accumulateRewards config db header uncles).intermediateRoot (config.isEIP158 header.number)
  return ({ header with root := root }, db)

/-- `FinalizeAndAssemble`, which does not put the uncles in the block. -/
def finalizeAndAssemble (config : ChainConfig) (header : Header) (db : OperationDB)
    (txs : List Transaction) (uncles : List Header) (receipts : List Receipt) :
    Except Fault (Block × OperationDB) := do
  let (header, db) ← finalize config header db uncles
  return (newBlock header txs receipts, db)

end Octopus
