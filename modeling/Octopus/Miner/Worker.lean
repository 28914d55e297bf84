import Octopus.Blockchain.Processor

/-!
# Packing transactions

The snapshot and the revert of `commitTransaction` are commented out, so a transaction
that fails after its gas was bought leaves the purchase in the environment.
-/

namespace Octopus

/-- `environment`, with the fields that packing a transaction reads or
writes. -/
structure Environment where
  operation : OperationDB
  gasPool : Nat
  coinbase : Address
  header : Header
  txs : List Transaction := []
  receipts : List Receipt := []

section

variable [Crypto]

structure Environment.Unchanged (before after : Environment) : Prop where
  balance : ∀ address,
    (after.operation.getBalance address).1 = (before.operation.getBalance address).1
  nonce : ∀ address,
    (after.operation.getNonce address).1 = (before.operation.getNonce address).1
  code : ∀ address,
    (after.operation.getCode address).1 = (before.operation.getCode address).1
  storage : ∀ address key,
    (after.operation.getState address key).1 = (before.operation.getState address key).1
  gasPool : after.gasPool = before.gasPool
  gasUsed : after.header.gasUsed = before.header.gasUsed
  txs : after.txs = before.txs
  receipts : after.receipts = before.receipts

theorem Environment.unchanged_of_ledger {old : Environment} {db : OperationDB} {gasPool : Nat}
    (sameLedger : db.ledger = old.operation.ledger) (samePool : gasPool = old.gasPool) :
    old.Unchanged { old with operation := db, gasPool := gasPool } where
  balance addr := by simp [sameLedger]
  nonce addr := by simp [sameLedger]
  code addr := by simp [sameLedger]
  storage addr key := by simp [sameLedger]
  gasPool := samePool
  gasUsed := rfl
  txs := rfl
  receipts := rfl

end

section

variable [Crypto] [Encoding]

/-- `commitTransaction`.  An error is returned with the environment as the
failed transaction left it. -/
def commitTransaction (chain : ChainContext) (fuel : Nat) (tx : Transaction) :
    Go Environment (Except TxError Unit) := fun env =>
  match applyTransactionFor chain fuel (some env.coinbase) env.header tx env.header.gasUsed
      { db := env.operation, gasPool := env.gasPool } with
  | .error fault => .error fault
  | .ok (.error error, after) =>
    .ok (.error error, { env with operation := after.db, gasPool := after.gasPool })
  | .ok (.ok (receipt, usedGas), after) =>
    .ok (.ok (), { env with
      operation := after.db
      gasPool := after.gasPool
      header := { env.header with gasUsed := usedGas }
      txs := env.txs ++ [tx]
      receipts := env.receipts ++ [receipt] })

def CommitAtomic (chain : ChainContext) (fuel : Nat) (env : Environment) (tx : Transaction) :
    Prop :=
  ∀ error after, commitTransaction chain fuel tx env = .ok (.error error, after) →
    env.Unchanged after

def minerTransition (chain : ChainContext) (fuel : Nat) (env : Environment) (message : Message) :
    Except Fault (Except TransitionError ExecutionResult × TransitionState) :=
  let ovm := newOVM chain (newOVMBlockContext chain env.header (some env.coinbase)) message
  applyMessage ovm (ovm.run fuel) message { db := env.operation, gasPool := env.gasPool }

theorem commitTransaction_eq_error {chain : ChainContext} {fuel : Nat} {env new : Environment}
    {tx : Transaction} {error : TxError} :
    commitTransaction chain fuel tx env = .ok (.error error, new) ↔
      (Encoding.sender tx = none ∧ error = .invalidSignature ∧ new = env) ∨
        ∃ sender failure state, Encoding.sender tx = some sender ∧
          minerTransition chain fuel env (tx.message sender) = .ok (.error failure, state) ∧
          error = .transition failure ∧
          new = { env with operation := state.db, gasPool := state.gasPool } := by
  rcases recovered : Encoding.sender tx with _ | sender
  · have refused : commitTransaction chain fuel tx env = .ok (.error .invalidSignature, env) := by
      simp only [commitTransaction, applyTransactionFor, Transaction.asMessage, recovered,
        Option.map_none]
      rfl
    rw [refused]
    constructor
    · intro ran
      cases ran
      exact .inl ⟨rfl, rfl, rfl⟩
    · rintro (⟨-, rfl, rfl⟩ | ⟨sender, -, -, impossible, -⟩)
      · rfl
      · cases impossible
  · simp only [commitTransaction, applyTransactionFor, Transaction.asMessage, recovered,
      Option.map_some, applyTransaction, minerTransition]
    rcases ran : applyMessage _ _ (tx.message sender) _ with fault | ⟨failure | result, state⟩
    · simp [ran]
    · simp [ran, eq_comm]
    · simp [ran]

/-- Packing is atomic exactly when the transaction does not get stuck after its gas is bought,
or buys no gas for a sender that exists. -/
theorem commitAtomic_iff_not_stuck (chain : ChainContext) (fuel : Nat) (env : Environment)
    (tx : Transaction) :
    CommitAtomic chain fuel env tx ↔ ∀ sender, Encoding.sender tx = some sender →
        (tx.message sender).Purchasable env.operation.ledger env.gasPool →
        ¬ (tx.message sender).Executable env.operation.ledger →
          tx.gas = 0 ∧ (env.operation.exist sender).1 = true := by
  constructor
  · intro atomic sender recovered purchasable stuck
    let ovm := newOVM chain (newOVMBlockContext chain env.header (some env.coinbase))
      (tx.message sender)
    rcases applyMessage_of_stuck ovm (ovm.run fuel) (tx.message sender)
      ⟨env.operation, env.gasPool⟩ purchasable stuck with ⟨failure, state, failed, purchases, pool⟩
    have unchanged := atomic _ _ (commitTransaction_eq_error.mpr
      (.inr ⟨sender, failure, state, recovered, failed, rfl, rfl⟩))
    have samePool : state.gasPool = env.gasPool := unchanged.gasPool
    have fits : tx.gas.toNat ≤ env.gasPool := purchasable.2
    have bought : state.gasPool = env.gasPool - tx.gas.toNat := pool
    have noGas : tx.gas.toNat = 0 := by omega
    have free : (tx.message sender).purchase = 0 := by
      simp [Message.purchase, Transaction.message, noGas]
    refine ⟨BitVec.eq_of_toNat_eq noGas, ?_⟩
    have sameBalance := unchanged.balance sender
    rw [OperationDB.getBalance_fst, OperationDB.getBalance_fst, purchases.ledger,
      Message.purchased, free, Ledger.balance_addBalance] at sameBalance
    rw [OperationDB.exist_fst]
    refine (Ledger.exists_iff_balance_entry _ _).mpr ?_
    simpa [Transaction.message] using sameBalance
  · intro condition _ _ ran
    rcases commitTransaction_eq_error.mp ran with
      ⟨-, -, rfl⟩ | ⟨sender, failure, state, recovered, failed, -, rfl⟩
    · exact Environment.unchanged_of_ledger rfl rfl
    rcases applyMessage_cases failed with
      ⟨-, -, quiet, pool⟩ | ⟨purchasable, stuck, -, purchases, pool⟩ |
        ⟨_, _, _, _, _, _, _, _, impossible, _⟩
    · exact Environment.unchanged_of_ledger (Trace.ledger_of_quiet quiet) pool
    · rcases condition sender recovered purchasable stuck with ⟨noGas, present⟩
      have free : (tx.message sender).purchase = 0 := by
        simp [Message.purchase, Transaction.message, noGas]
      refine Environment.unchanged_of_ledger ?_ ?_
      · rw [OperationDB.exist_fst] at present
        rw [purchases.ledger, Message.purchased, free, neg_zero]
        exact Ledger.addBalance_zero _ _ present
      · rw [pool]
        simp [Transaction.message, noGas]
    · cases impossible

end

open Library.Computation

attribute [local instance] sampleCrypto

def sampleHeader : Header where
  coinbase := 0x33
  txHash := emptyRoot
  receiptHash := emptyRoot
  difficulty := 1
  number := 1
  gasLimit := 50000

def signer : Address :=
  0x7e5f4552091a69125d5dfcb7b8c2659029395bdf

/-- A payment, signed with the private key one, whose gas limit is a thousand
below the intrinsic gas. -/
def shortPayment : Transaction where
  nonce := 0
  gasPrice := 1
  gas := 20000
  recipient := some 0x22
  value := 7
  v := 1367
  r := 0xf0dd4fb597fca5560b78bd3d06161342513c04df64ac593cdf54a66f26efb727
  s := 0x9db2e4c2f9c35382b1c3a9dd198cc62c1201a5af75184320a5b135022b8dcc8

@[reducible]
def paymentEncoding : Encoding :=
  { blankEncoding with
    txHash := fun _ => 0x65961198041e8a59bbd51a737bfbca94b57a9f83f0dd53dd4ddc0b5033c42603
    sender := fun tx => if tx = shortPayment then some signer else none }

attribute [local instance] paymentEncoding

def sampleEnvironment : Environment where
  operation :=
    { database := {}
      originalRoot := 1
      trie := fun address =>
        if address = signer then some (.holding 1000000)
        else none }
  gasPool := 50000
  coinbase := 0x33
  header := sampleHeader

/-- A payment refused for its gas limit leaves pool and sender without the gas that it bought. -/
theorem short_payment_not_atomic :
    ∃ after,
      commitTransaction ⟨{}, fun _ _ _ => 0, false⟩ 4 shortPayment sampleEnvironment =
          .ok (.error (.transition (.intrinsicGasTooLow 20000 21000)), after) ∧
        after.gasPool = 30000 ∧ (after.operation.getBalance signer).1 = 980000 ∧
        ¬ CommitAtomic ⟨{}, fun _ _ _ => 0, false⟩ 4 sampleEnvironment shortPayment := by
  have left : returns (fun res after =>
        decide (res = .error (.transition (.intrinsicGasTooLow 20000 21000))) &&
          decide (after.gasPool = 30000) &&
          decide ((after.operation.getBalance signer).1 = 980000))
      (commitTransaction ⟨{}, fun _ _ _ => 0, false⟩ 4 shortPayment sampleEnvironment) = true := by
    decide +kernel
  rcases exists_of_returns left with ⟨res, after, ran, checks⟩
  simp only [Bool.and_eq_true, decide_eq_true_eq] at checks
  rcases checks with ⟨⟨rfl, pool⟩, balance⟩
  refine ⟨after, ran, pool, balance, fun atomic => ?_⟩
  have samePool := (atomic _ _ ran).gasPool
  rw [pool] at samePool
  exact absurd samePool (by decide)

end Octopus
