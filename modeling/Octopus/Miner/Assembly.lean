import Octopus.Consensus.Rewards
import Octopus.Miner.Worker

/-!
# Assembling a block and importing it

`FinalizeAndAssemble` pays the rewards and puts the root of the state in the header.  The
importer ends in the state that the miner had before: `Process` does not pay rewards.
-/

namespace Octopus

open Library.Computation

variable {txs : List Transaction} {tx : Transaction} {new env : Environment}

/-- `makeEnv`, with the gas pool that packing starts from. -/
def makeEnv (parent : OperationDB) (header : Header) : Environment where
  operation := parent
  gasPool := header.gasLimit
  coinbase := header.coinbase
  header := header

section

variable [Crypto] [Encoding]

def packTransactions (chain : ChainContext) (fuel : Nat) :
    List Transaction → Go Environment (Except TxError Unit)
  | [], env => .ok (.ok (), env)
  | tx :: rest, env =>
    match commitTransaction chain fuel tx env with
    | .error fault => .error fault
    | .ok (.error error, env) => .ok (.error error, env)
    | .ok (.ok (), env) => packTransactions chain fuel rest env

/-- Pack a block and assemble it with the `octell` engine; the state returned has the rewards. -/
def assembleBlock (chain : ChainContext) (fuel : Nat) (parent : OperationDB) (header : Header)
    (txs : List Transaction) (uncles : List Header) :
    Except Fault (Except TxError (Block × OperationDB)) :=
  match packTransactions chain fuel txs (makeEnv parent header) with
  | .error fault => .error fault
  | .ok (.error error, _) => .ok (.error error)
  | .ok (.ok (), env) =>
    match finalizeAndAssemble chain.config env.header env.operation env.txs uncles
        env.receipts with
    | .error fault => .error fault
    | .ok assembled => .ok (.ok assembled)

variable {chain : ChainContext} {fuel : Nat}

theorem commitTransaction_eq_ok
    (ran : commitTransaction chain fuel tx env = .ok (.ok (), new)) :
    ∃ msg res state receipt, tx.asMessage = some msg ∧
      minerTransition chain fuel env msg = .ok (.ok res, state) ∧
      new = { env with
        operation := state.db
        gasPool := state.gasPool
        header := { env.header with gasUsed := (env.header.gasUsed + res.usedGas) % uint64Size }
        txs := env.txs ++ [tx]
        receipts := env.receipts ++ [receipt] } := by
  unfold commitTransaction applyTransactionFor at ran
  rcases recovered : tx.asMessage with _ | msg
  · simp only [recovered] at ran
    cases ran
  simp only [recovered, applyTransaction] at ran
  split at ran
  · cases ran
  · cases ran
  · next receipt usedGas state applied =>
    cases ran
    split at applied
    · cases applied
    · cases applied
    · next res final ran =>
      cases applied
      exact ⟨msg, res, state, _, rfl, ran, rfl⟩

theorem packTransactions_cons {rest : List Transaction}
    (packed : packTransactions chain fuel (tx :: rest) env = .ok (.ok (), new)) :
    ∃ mid, commitTransaction chain fuel tx env = .ok (.ok (), mid) ∧
      packTransactions chain fuel rest mid = .ok (.ok (), new) := by
  rw [packTransactions] at packed
  split at packed
  · cases packed
  · cases packed
  · next mid committed => exact ⟨mid, committed, packed⟩

structure Environment.Packed (env : Environment) (txs : List Transaction) (after : Environment) :
    Prop where
  coinbase : after.coinbase = env.coinbase
  header : ∃ gasUsed, after.header = { env.header with gasUsed := gasUsed }
  txs : after.txs = env.txs ++ txs
  unsettled : env.operation.Unsettled → after.operation.Unsettled

theorem packed_of_packTransactions
    (packed : packTransactions chain fuel txs env = .ok (.ok (), new)) : env.Packed txs new := by
  induction txs generalizing env with
  | nil =>
    cases packed
    exact ⟨rfl, ⟨_, rfl⟩, (List.append_nil _).symm, fun unsettled => unsettled⟩
  | cons _ _ ih =>
    rcases packTransactions_cons packed with ⟨_, committed, packed⟩
    rcases commitTransaction_eq_ok committed with ⟨msg, res, state, receipt, -, ran, rfl⟩
    rcases ih packed with ⟨coinbase, ⟨gasUsed, header⟩, txs, unsettled⟩
    refine ⟨coinbase, ⟨gasUsed, header⟩, ?_, ?_⟩
    · rw [txs, List.append_assoc]
      rfl
    · intro start
      exact unsettled (OperationDB.Unsettled.applyMessage start ran)

/-- The importer goes through the states that the miner went through, if both
run the transactions in one context. -/
theorem processTransactions_of_packed (block : Block)
    (packed : packTransactions chain fuel txs env = .ok (.ok (), new))
    (context : newOVMBlockContext chain block.header none =
      newOVMBlockContext chain env.header (some env.coinbase)) (usedGas : Nat) :
    ∃ receipts used, processTransactions chain fuel block (txs.map some) usedGas
        { db := env.operation, gasPool := env.gasPool } =
      .ok (.ok (receipts, used), { db := new.operation, gasPool := new.gasPool }) := by
  induction txs generalizing env usedGas with
  | nil =>
    cases packed
    exact ⟨[], usedGas, rfl⟩
  | cons tx _ ih =>
    rcases packTransactions_cons packed with ⟨_, committed, packed⟩
    rcases commitTransaction_eq_ok committed with ⟨msg, res, state, receipt, recovered, ran, rfl⟩
    rcases ih packed context ((usedGas + res.usedGas) % uint64Size) with ⟨receipts, used, processed⟩
    let imported : Receipt :=
      { txHash := Encoding.txHash tx, gasUsed := res.usedGas, blockHash := block.hash
        blockNumber := block.number }
    have applied : applyTransaction chain fuel (newOVMBlockContext chain block.header none)
        msg block.number block.hash tx usedGas { db := env.operation, gasPool := env.gasPool } =
        .ok (.ok (imported, (usedGas + res.usedGas) % uint64Size), state) := by
      rw [minerTransition] at ran
      simp only [applyTransaction, context, ran]
      rfl
    refine ⟨imported :: receipts, used, ?_⟩
    rw [List.map_cons, processTransactions]
    simp only [recovered]
    rw [bind_apply, applied]
    dsimp only
    rw [bind_apply, processed]
    rfl

theorem process_of_processTransactions {block : Block} {db : OperationDB}
    {txs : List (Option Transaction)} {res : Except TxError (List Receipt × Nat)}
    {new : TransitionState} (listed : block.transactions = txs)
    (processed : processTransactions chain fuel block txs 0
      { db := db, gasPool := block.header.gasLimit } = .ok (res, new)) :
    process chain fuel block db = .ok (res, new.db) := by
  subst listed
  simp [process, processed]

variable {parent mined : OperationDB} {header : Header} {txs : List Transaction}
  {uncles : List Header} {block : Block}

theorem assembleBlock_eq_ok
    (assembled : assembleBlock chain fuel parent header txs uncles = .ok (.ok (block, mined))) :
    ∃ env root, packTransactions chain fuel txs (makeEnv parent header) = .ok (.ok (), env) ∧
      (accumulateRewards chain.config env.operation env.header uncles).intermediateRoot
          (chain.config.isEIP158 env.header.number) = .ok (root, mined) ∧
      block = newBlock { env.header with root := root } env.txs env.receipts := by
  unfold assembleBlock at assembled
  split at assembled
  · cases assembled
  · cases assembled
  · next env packed =>
    split at assembled
    · cases assembled
    · next res finalized =>
      cases assembled
      simp only [finalizeAndAssemble, finalize, bind, Except.bind] at finalized
      rcases rooted : (accumulateRewards chain.config env.operation env.header
        uncles).intermediateRoot (chain.config.isEIP158 env.header.number) with
        fault | ⟨root, new⟩
      · simp [rooted] at finalized
      · simp only [rooted] at finalized
        cases finalized
        exact ⟨env, root, packed, rooted, rfl⟩

/-- Importing an assembled block succeeds.  Its state has the records without the rewards, and
the root in the header is that of the records with them. -/
theorem process_of_assembled (unsettled : parent.Unsettled)
    (assembled : assembleBlock chain fuel parent header txs uncles = .ok (.ok (block, mined))) :
    ∃ receipts usedGas imported new,
      process chain fuel block parent = .ok (.ok (receipts, usedGas), imported) ∧
      imported.Unsettled ∧
      imported.intermediateRoot (chain.config.isEIP158 header.number) =
        .ok (Crypto.accountRoot (imported.settled (chain.config.isEIP158 header.number)), new) ∧
      block.header.root = Crypto.accountRoot
        ((accumulateRewards chain.config imported header uncles).settled
          (chain.config.isEIP158 header.number)) := by
  rcases assembleBlock_eq_ok assembled with ⟨env, root, packed, rooted, rfl⟩
  rcases packed_of_packTransactions packed with ⟨-, ⟨gasUsed, sameHeader⟩, packedTxs, keeps⟩
  have imported := keeps unsettled
  rcases OperationDB.intermediateRoot_eq imported.pending (chain.config.isEIP158 header.number)
    with ⟨new, without⟩
  rw [sameHeader] at rooted ⊢
  have listed : (newBlock { header with gasUsed := gasUsed, root := root } env.txs
      env.receipts).transactions = txs.map some := by
    simp [newBlock, packedTxs, makeEnv]
  rcases processTransactions_of_packed
    (newBlock { header with gasUsed := gasUsed, root := root } env.txs env.receipts) packed rfl 0
    with ⟨receipts, usedGas, processed⟩
  refine ⟨receipts, usedGas, env.operation, new,
    process_of_processTransactions listed processed, imported, without, ?_⟩
  have rewarded : (accumulateRewards chain.config env.operation header uncles).Unsettled :=
    unsettled_accumulateRewards imported
  rcases OperationDB.intermediateRoot_eq rewarded.pending (chain.config.isEIP158 header.number)
    with ⟨other, withRewards⟩
  have same := withRewards.symm.trans rooted
  cases same
  rfl

def RootsTellApart (first second : AccountTrie) : Prop :=
  Crypto.accountRoot first = Crypto.accountRoot second → first = second

/-- Importing an assembled block on the state it was assembled on succeeds, and ends with the
root of its header exactly if no reward shows in a record of the state. -/
theorem imported_root_iff_rewardsUnseen {root : Hash} {database : Database}
    (opened : newOperationDb root database = some parent)
    (assembled : assembleBlock chain fuel parent header txs uncles = .ok (.ok (block, mined))) :
    ∃ receipts usedGas imported importedRoot after,
      process chain fuel block parent = .ok (.ok (receipts, usedGas), imported) ∧
      imported.intermediateRoot (chain.config.isEIP158 header.number) = .ok (importedRoot, after) ∧
      (RootsTellApart (imported.settled (chain.config.isEIP158 header.number))
          ((accumulateRewards chain.config imported header uncles).settled
            (chain.config.isEIP158 header.number)) → (importedRoot = block.header.root ↔
          RewardsUnseen chain.config header uncles imported)) := by
  rcases process_of_assembled (OperationDB.unsettled_of_newOperationDb opened) assembled with
    ⟨receipts, usedGas, imported, after, processed, unsettled, rooted, sealed⟩
  refine ⟨receipts, usedGas, imported, _, after, processed, rooted, fun apart => ?_⟩
  rw [sealed, ← settled_accumulateRewards_iff unsettled]
  constructor
  · intro same
    exact (apart same).symm
  · intro same
    rw [same]

end

def defaultChain : ChainContext :=
  ⟨{ chainID := some 666 }, fun _ _ _ => 0, false⟩

def destroyingCall : Transaction where
  nonce := 0
  gasPrice := 1
  gas := 30000
  recipient := some 0x33
  value := 0
  v := 1368
  r := 0x3512edc63bb104ff22f8ebae721f084c3e2f2adf2442aa7d2812639009ca1c89
  s := 0x1b27a422ca8888340841e9b1fef21b1f4cd28aae80ce7a5397b9633e2ef71813

@[reducible]
def destroyingEncoding : Encoding :=
  { blankEncoding with
    txHash := fun _ => 0xf6cdc34e5e4dd7a221ddc42cc6d18f94fbfe52bda7d682e2ae44cb15f3f71b54
    sender := fun tx => if tx = destroyingCall then some signer else none }

/-- The roots of the empty trie, of the trie that holds the reward of the first
block, and of the trie that holds what is left of the sample accounts. -/
@[reducible]
def rewardCrypto : Crypto :=
  { sampleCrypto with
    accountRoot := fun trie =>
      if trie signer ≠ none then 0x0fe0b1d4c056822898bfb8e59c22b9e1fbc6ef68ed9d69cdcf7fed3e569df887
      else if trie 0x33 ≠ none then
        0xfc505eb1a68b7eb23f9b0ef6952e5871f91a724dbd3add9ccce7e52889de7c6e
      else emptyRoot }

attribute [local instance] rewardCrypto destroyingEncoding

def destructibleTrie : AccountTrie := fun address =>
  if address = signer then some (.holding 1000000)
  else if address = 0x33 then
    some { nonce := 1, balance := 5, root := emptyRoot
           codeHash := 0x5164f22255aad1217fb7dffed77d16661156d29688f495adc1ab2314051b3a91 }
  else none

def destructibleRoot : Hash :=
  0xe0fed7254c3cea5ac265706299bf2fc9eb3d8088f9354bc70ddfcebc42d03c18

def destructibleDatabase : Database where
  accountTries root := if root = destructibleRoot then some destructibleTrie else none
  storageTries _ := none
  codes hash :=
    if hash = 0x5164f22255aad1217fb7dffed77d16661156d29688f495adc1ab2314051b3a91 then
      some [0x33, 0xff]
    else none

def destructibleParent : OperationDB where
  database := destructibleDatabase
  originalRoot := destructibleRoot
  trie := destructibleTrie

def emptyParent : OperationDB where
  database := emptyDatabase
  originalRoot := emptyRoot
  trie := fun _ => none

def assembles (test : Block → OperationDB → Bool) :
    Except Fault (Except TxError (Block × OperationDB)) → Bool
  | .ok (.ok (block, mined)) => test block mined
  | _ => false

theorem exists_of_assembles {test : Block → OperationDB → Bool}
    {assembled : Except Fault (Except TxError (Block × OperationDB))}
    (passes : assembles test assembled = true) :
    ∃ block mined, assembled = .ok (.ok (block, mined)) ∧ test block mined = true := by
  rcases assembled with fault | error | ⟨block, mined⟩
  · cases passes
  · cases passes
  · exact ⟨block, mined, rfl, passes⟩

theorem destroyed_coinbase_imported :
    ∃ block mined receipts usedGas imported importedRoot after,
      newOperationDb destructibleRoot destructibleDatabase = some destructibleParent ∧
      assembleBlock defaultChain 4 destructibleParent sampleHeader [destroyingCall] [] =
        .ok (.ok (block, mined)) ∧
      process defaultChain 4 block destructibleParent = .ok (.ok (receipts, usedGas), imported) ∧
      imported.intermediateRoot (defaultChain.config.isEIP158 sampleHeader.number) =
        .ok (importedRoot, after) ∧ importedRoot = block.header.root := by
  have opened : newOperationDb destructibleRoot destructibleDatabase = some destructibleParent :=
    rfl
  have run : assembles (fun block _ => returns (fun _ imported =>
          (imported.find 0x33).any fun obj => obj.suicided && 0 ≤ obj.data.balance)
        (process defaultChain 4 block destructibleParent))
      (assembleBlock defaultChain 4 destructibleParent sampleHeader [destroyingCall] []) =
        true := by
    decide +kernel
  rcases exists_of_assembles run with ⟨block, mined, assembled, passes⟩
  rcases exists_of_returns passes with ⟨_, final, ran, checks⟩
  rcases process_of_assembled (OperationDB.unsettled_of_newOperationDb opened) assembled with
    ⟨_, _, imported, _, again, unsettled, -, -⟩
  rcases imported_root_iff_rewardsUnseen opened assembled with
    ⟨receipts, usedGas, other, importedRoot, after, processed, rooted, agrees⟩
  rw [again] at ran processed
  cases ran
  cases processed
  have unseen : RewardsUnseen defaultChain.config sampleHeader [] final := by
    rw [Option.any_eq_true] at checks
    rcases checks with ⟨obj, found, checks⟩
    rw [Bool.and_eq_true, decide_eq_true_eq] at checks
    intro addr rewarded
    have coinbase : addr = 0x33 := by simpa [rewards, sampleHeader] using rewarded
    subst coinbase
    refine (unseen_iff_suicided unsettled (sum_rewardsOf_pos (by simp) rewarded) ?_ _).mpr
      ⟨obj, found, checks.1⟩
    intro other same
    rw [found] at same
    cases same
    exact checks.2
  refine ⟨block, mined, _, _, final, importedRoot, after, opened, assembled, again, rooted,
    (agrees ?_).mpr unseen⟩
  intro _
  exact ((settled_accumulateRewards_iff unsettled).mpr unseen).symm

theorem rewarded_coinbase_not_imported :
    ∃ block mined receipts usedGas imported importedRoot after,
      newOperationDb emptyRoot emptyDatabase = some emptyParent ∧
      assembleBlock defaultChain 4 emptyParent sampleHeader [] [] = .ok (.ok (block, mined)) ∧
      process defaultChain 4 block emptyParent = .ok (.ok (receipts, usedGas), imported) ∧
      imported.intermediateRoot (defaultChain.config.isEIP158 sampleHeader.number) =
        .ok (importedRoot, after) ∧ importedRoot ≠ block.header.root := by
  have run : assembles (fun block _ => returns (fun res imported =>
          res.isOk && returns (fun root _ => root ≠ block.header.root)
            (imported.intermediateRoot (defaultChain.config.isEIP158 sampleHeader.number)))
        (process defaultChain 4 block emptyParent))
      (assembleBlock defaultChain 4 emptyParent sampleHeader [] []) = true := by
    decide +kernel
  rcases exists_of_assembles run with ⟨block, mined, assembled, passes⟩
  rcases exists_of_returns passes with ⟨res, imported, processed, checks⟩
  rw [Bool.and_eq_true] at checks
  rcases exists_of_returns checks.2 with ⟨root, after, rooted, differs⟩
  rcases res with err | ⟨receipts, usedGas⟩
  · cases checks.1
  · exact ⟨block, mined, receipts, usedGas, imported, root, after, rfl, assembled, processed,
      rooted, of_decide_eq_true differs⟩

end Octopus
