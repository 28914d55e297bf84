import Octopus.Entity.Chaindata
import Octopus.Miner.Assembly

/-!
# Receipts in the key-value database

`ReadReceipts` derives most of the fields of a receipt from the transactions of the stored
body.  These come back without contents, so the first of them ends the process.
-/

namespace Octopus

open Library

open Rlp FieldCodec

structure ReceiptLog where
  address : Address
  topics : List Hash
  data : Bytes
  blockNumber : Nat := 0
  txHash : Hash := 0
  txIndex : Nat := 0
  blockHash : Hash := 0
  index : Nat := 0
  deriving DecidableEq

structure FullReceipt where
  type : Nat := 0
  postState : Bytes := []
  status : Nat := 0
  cumulativeGasUsed : Nat := 0
  logs : List ReceiptLog := []
  txHash : Hash
  contractAddress : Address := 0
  gasUsed : Nat
  blockHash : Hash
  blockNumber : Nat
  transactionIndex : Nat := 0
  deriving DecidableEq

/-- A receipt as the execution leaves it: `applyTransaction` sets four fields. -/
def Receipt.full (receipt : Receipt) : FullReceipt where
  txHash := receipt.txHash
  gasUsed := receipt.gasUsed
  blockHash := receipt.blockHash
  blockNumber := receipt.blockNumber

def ReceiptLog.codec : FieldCodec ReceiptLog :=
  structCodec (((FieldCodec.array 20).pair ((sliceCodec (FieldCodec.array 32)).pair
    FieldCodec.bytes)).via
    (fun log => (log.address, log.topics, log.data))
    (fun (address, topics, data) => { address, topics, data }))

/-- The encoding of `ReceiptForStorage`, which has no methods of its own and is
encoded with every field. -/
def FullReceipt.fields : FieldCodec FullReceipt :=
  ((FieldCodec.uint 1).pair (FieldCodec.bytes.pair ((FieldCodec.uint 8).pair
    ((FieldCodec.uint 8).pair ((sliceCodec ReceiptLog.codec).pair ((FieldCodec.array 32).pair
      ((FieldCodec.array 20).pair ((FieldCodec.uint 8).pair ((FieldCodec.array 32).pair
        (FieldCodec.bigNat.pair (FieldCodec.uint 8))))))))))).via
    (fun receipt => (receipt.type, receipt.postState, receipt.status, receipt.cumulativeGasUsed,
      receipt.logs, receipt.txHash, receipt.contractAddress, receipt.gasUsed, receipt.blockHash,
      receipt.blockNumber, receipt.transactionIndex))
    (fun (type, postState, status, cumulativeGasUsed, logs, txHash, contractAddress, gasUsed,
        blockHash, blockNumber, transactionIndex) =>
      { type, postState, status, cumulativeGasUsed, logs, txHash, contractAddress, gasUsed,
        blockHash, blockNumber, transactionIndex })

def FullReceipt.codec : FieldCodec FullReceipt :=
  structCodec FullReceipt.fields

/-- What `DeriveFields` is given, with the sender that the signer recovers, zero if it fails. -/
structure Derivation where
  hash : Hash
  number : Nat
  sender : TxData → Address

section

variable [Crypto] (derivation : Derivation)

def deriveLogs (txHash : Hash) (txIndex : Nat) : Nat → List ReceiptLog → List ReceiptLog
  | _, [] => []
  | logIndex, log :: logs =>
    { log with
      blockNumber := derivation.number
      blockHash := derivation.hash
      txHash := txHash
      txIndex := txIndex
      index := logIndex } :: deriveLogs txHash txIndex (logIndex + 1) logs

/-- One round of `DeriveFields`, after a receipt with the given cumulative gas. -/
def deriveReceipt (index previous logIndex : Nat) (inner : TxData) (receipt : FullReceipt) :
    FullReceipt :=
  { receipt with
    type := inner.txType.toNat
    txHash := inner.hash
    blockHash := derivation.hash
    blockNumber := derivation.number
    transactionIndex := index
    contractAddress :=
      if inner.recipient = none then createAddress (derivation.sender inner) inner.nonce.toNat
      else receipt.contractAddress
    gasUsed := (receipt.cumulativeGasUsed + (uint64Size - previous)) % uint64Size
    logs := deriveLogs derivation inner.hash index logIndex receipt.logs }

def deriveFrom : Nat → Nat → Nat → List WireTransaction → List FullReceipt →
    Except Fault (List FullReceipt)
  | index, previous, logIndex, tx :: txs, receipt :: receipts =>
    match tx.inner with
    | none => .error nilDereference
    | some inner =>
      match deriveFrom (index + 1) receipt.cumulativeGasUsed
          (logIndex + receipt.logs.length) txs receipts with
      | .error fault => .error fault
      | .ok rest => .ok (deriveReceipt derivation index previous logIndex inner receipt :: rest)
  | _, _, _, _, _ => .ok []

def deriveFields (txs : List WireTransaction) (receipts : List FullReceipt) :
    Except Fault (Option (List FullReceipt)) :=
  if txs.length ≠ receipts.length then .ok none
  else (deriveFrom derivation 0 0 0 txs receipts).map some

end

namespace KeyValue

def writeReceipts (hash : Hash) (number : Nat) (receipts : List FullReceipt) : KeyValueBatch :=
  [putValue (sliceCodec FullReceipt.codec) (blockReceiptsKey number hash) receipts]

def readRawReceipts (db : KeyValueStore) (hash : Hash) (number : Nat) : Option (List FullReceipt) :=
  let data := get db (blockReceiptsKey number hash)
  if data = [] then none
  else
    match decodeBytes (sliceCodec FullReceipt.codec) data with
    | .error _ => none
    | .ok receipts => some receipts

def readReceipts [Crypto] (derivation : Derivation) (db : KeyValueStore) :
    Except Fault (Option (List FullReceipt)) :=
  match readRawReceipts db derivation.hash derivation.number with
  | none => .ok none
  | some receipts =>
    match readBody db derivation.hash derivation.number with
    | none => .ok none
    | some (transactions, _) => deriveFields derivation transactions receipts

end KeyValue

/-- A receipt that was read agrees with the one that was made, besides the type
and the hashes. -/
structure FullReceipt.Agrees (read made : FullReceipt) : Prop where
  status : read.status = made.status
  gasUsed : read.gasUsed = made.gasUsed
  cumulativeGasUsed : read.cumulativeGasUsed = made.cumulativeGasUsed
  contractAddress : read.contractAddress = made.contractAddress
  blockNumber : read.blockNumber = made.blockNumber
  transactionIndex : read.transactionIndex = made.transactionIndex
  logs : read.logs = made.logs

/-- A transaction as the execution sees it; the gas price of a dynamic fee
transaction is its fee cap. -/
def TxData.view : TxData → Transaction
  | .legacy tx =>
    { nonce := tx.nonce, gasPrice := tx.gasPrice, gas := tx.gas, recipient := tx.recipient,
      value := tx.value, data := tx.data, v := tx.v, r := tx.r, s := tx.s }
  | .dynamicFee tx =>
    { nonce := tx.nonce, gasPrice := tx.gasFeeCap, gas := tx.gas, recipient := tx.recipient,
      value := tx.value, data := tx.data, v := tx.v, r := tx.r, s := tx.s }

def WireBlock.view (block : WireBlock) : Block where
  header := block.header
  uncles := block.uncles
  transactions := block.transactions.map fun tx => tx.inner.map TxData.view

namespace KeyValue

section

variable [Crypto] {block : WireBlock} {derivation : Derivation}

def withReceipts (db : KeyValueStore) (derivation : Derivation) (block : WireBlock)
    (receipts : List FullReceipt) : KeyValueStore :=
  db.commit (writeBody derivation.hash derivation.number block.body ++
    writeReceipts derivation.hash derivation.number receipts)

omit [Crypto] in
theorem readBody_withReceipts (fits : Fits block) (db : KeyValueStore)
    (receipts : List FullReceipt) :
    readBody (withReceipts db derivation block receipts) derivation.hash derivation.number =
      some ((stored block).transactions, (stored block).uncles) := by
  rcases decode_body blankTransaction fits.uncles fits.body with ⟨text, encoded, nonempty, decoded⟩
  apply readValue_of_lookup _ nonempty decoded
  rw [withReceipts, writeBody, WireBlock.body, putValue_eq encoded]
  refine Store.lookup_commit_of_put_last [] (writeReceipts derivation.hash derivation.number
    receipts) ?_
  intro _ mem
  simp only [writeReceipts, List.mem_singleton] at mem
  subst mem
  exact tableKey_ne (by decide) rfl rfl _ _ _ _

omit [Crypto] in
theorem readRawReceipts_withReceipts {receipts : List FullReceipt}
    (completes : (sliceCodec FullReceipt.codec).Completes receipts) (db : KeyValueStore) :
    readRawReceipts (withReceipts db derivation block receipts) derivation.hash
      derivation.number = some receipts := by
  rcases completes with ⟨text, encoded, nonempty, reads⟩
  rcases decodeBytes_of_completes ⟨text, encoded, nonempty, reads⟩ with ⟨_, same, decoded⟩
  have found : (withReceipts db derivation block receipts).lookup
      (blockReceiptsKey derivation.number derivation.hash) = some text := by
    rw [withReceipts, writeReceipts, putValue_eq encoded]
    exact Store.lookup_commit_of_put_last
      (writeBody derivation.hash derivation.number block.body) [] (by simp)
  rw [encodeToBytes, encoded] at same
  cases same
  simp [readRawReceipts, get, found, nonempty, decoded]

theorem deriveFields_blank (derivation : Derivation) {txs : List WireTransaction}
    (nonempty : txs ≠ []) (receipts : List FullReceipt) :
    deriveFields derivation (txs.map fun _ => blankTransaction) receipts = .ok none ∨
      deriveFields derivation (txs.map fun _ => blankTransaction) receipts =
        .error nilDereference := by
  rcases txs with _ | ⟨_, txs⟩
  · exact absurd rfl nonempty
  rcases receipts with _ | ⟨_, receipts⟩
  · simp [deriveFields]
  · by_cases same : txs.length = receipts.length
    · simp [deriveFields, same, deriveFrom, blankTransaction, Except.map]
    · simp [deriveFields, same]

theorem readReceipts_ne_ok (fits : Fits block) (nonempty : block.transactions ≠ [])
    (db : KeyValueStore) (receipts read : List FullReceipt) :
    readReceipts derivation (withReceipts db derivation block receipts) ≠ .ok (some read) := by
  intro ran
  rw [readReceipts, readBody_withReceipts fits] at ran
  rcases raw : readRawReceipts (withReceipts db derivation block receipts) derivation.hash
    derivation.number with _ | found
  · simp [raw] at ran
  simp only [raw, stored] at ran
  rcases deriveFields_blank derivation nonempty found with isNil | faulted
  · rw [isNil] at ran
    cases ran
  · rw [faulted] at ran
    cases ran

omit [Crypto] in
theorem full_within {receipt : Receipt} (gas : receipt.gasUsed < uint64Size)
    (number : (digits receipt.blockNumber).length ≤ maxAlloc) :
    FullReceipt.codec.CompletesWithin receipt.full (maxAlloc + 400) := by
  have limit : maxAlloc = 2 ^ 48 := rfl
  have zero : ∀ width, (uint width).CompletesWithin 0 17 :=
    fun width => uint_within (by decide) (by simp [show digits 0 = [] by decide])
  have hash : ∀ value : Hash, (array 32).CompletesWithin value 41 :=
    array_within 32 (by omega) (by omega)
  have addr : ∀ value : Address, (array 20).CompletesWithin value 29 :=
    array_within 20 (by omega) (by omega)
  have empty : FieldCodec.bytes.CompletesWithin [] 9 := bytes_within (by simp)
  have logs : (sliceCodec ReceiptLog.codec).CompletesWithin [] 9 :=
    sliceCodec_within (fun _ => 0) (by simp) (by simp)
  have gasUsed : (uint 8).CompletesWithin receipt.gasUsed 17 :=
    uint_within gas (Stream.length_digits_le_eight gas)
  have blockNumber := @bigNat_within receipt.blockNumber (by omega)
  have within : FullReceipt.fields.CompletesWithin receipt.full _ :=
    Codec.CompletesWithin.via ((zero 1).pair (empty.pair ((zero 8).pair ((zero 8).pair (logs.pair
      ((hash receipt.txHash).pair ((addr 0).pair (gasUsed.pair ((hash receipt.blockHash).pair
        (blockNumber.pair (zero 8))))))))))) rfl
  exact (structCodec_within within (by omega)).mono (by omega)

/-- The reader crashes on receipts that were written and read: the transactions beside them have
no content. -/
theorem readReceipts_fault (fits : Fits block) (nonempty : block.transactions ≠ [])
    {receipts : List FullReceipt} (each : receipts.length = block.transactions.length)
    (completes : (sliceCodec FullReceipt.codec).Completes receipts) (db : KeyValueStore) :
    readReceipts derivation (withReceipts db derivation block receipts) =
      .error nilDereference := by
  rw [readReceipts, readRawReceipts_withReceipts completes, readBody_withReceipts fits]
  rcases isTransactions : block.transactions with _ | ⟨_, txs⟩
  · exact absurd isTransactions nonempty
  rcases receipts with _ | ⟨receipt, receipts⟩
  · simp [isTransactions] at each
  · have same : txs.length = receipts.length := by simpa [isTransactions] using each.symm
    simp [stored, isTransactions, deriveFields, same, deriveFrom, blankTransaction, Except.map]

/-- The receipts of an executed block are read back as they were made exactly if the block has
no transactions. -/
theorem readReceipts_writeReceipts_iff [Encoding] {chain : ChainContext} {fuel used : Nat}
    {state after : OperationDB} {receipts : List Receipt} (fits : Fits block)
    (executed : process chain fuel block.view state = .ok (.ok (receipts, used), after))
    (db : KeyValueStore) (derivation : Derivation) :
    (∃ read, readReceipts derivation
        (withReceipts db derivation block (receipts.map Receipt.full)) = .ok (some read) ∧
      List.Forall₂ FullReceipt.Agrees read (receipts.map Receipt.full)) ↔
    block.transactions = [] := by
  constructor
  · rintro ⟨read, ran, -⟩
    by_contra nonempty
    exact readReceipts_ne_ok fits nonempty db _ read ran
  · intro empty
    have isView : block.view.transactions = [] := by simp [WireBlock.view, empty]
    have isEmpty : receipts = [] := by
      simp only [process, isView] at executed
      cases executed
      rfl
    subst isEmpty
    have completes : (sliceCodec FullReceipt.codec).Completes [] :=
      (sliceCodec_within (fun _ => 0) (by simp) (by simp)).completes
    refine ⟨[], ?_, .nil⟩
    simp only [List.map_nil, readReceipts, readRawReceipts_withReceipts completes,
      readBody_withReceipts fits, stored, empty]
    rfl

end

def callBlock : WireBlock where
  header := Octopus.sampleHeader
  transactions := [⟨some (.legacy
    { nonce := destroyingCall.nonce, gasPrice := destroyingCall.gasPrice
      gas := destroyingCall.gas, recipient := destroyingCall.recipient
      value := destroyingCall.value, data := destroyingCall.data
      v := destroyingCall.v, r := destroyingCall.r, s := destroyingCall.s }), none⟩]

theorem sampleHeader_fits : Octopus.sampleHeader.Storable where
  fits := ⟨by decide, by decide, by decide, by decide +kernel, by decide +kernel, by decide +kernel⟩
  extra := by decide

theorem callBlock_fits : Fits callBlock where
  header := sampleHeader_fits
  uncles := by simp [callBlock]
  body := by decide

theorem sample_readReceipts_writeReceipts_iff :
    letI := rewardCrypto
    letI := destroyingEncoding
    ∃ receipts used after,
      process defaultChain 4 (WireBlock.view { header := Octopus.sampleHeader }) emptyParent =
        .ok (.ok (receipts, used), after) ∧
      ∃ read, readReceipts ⟨0, 1, fun _ => 0⟩ (withReceipts Store.empty ⟨0, 1, fun _ => 0⟩
          { header := Octopus.sampleHeader } (receipts.map Receipt.full)) = .ok (some read) ∧
        List.Forall₂ FullReceipt.Agrees read (receipts.map Receipt.full) := by
  let := rewardCrypto
  let := destroyingEncoding
  have fits : Fits { header := Octopus.sampleHeader } := ⟨sampleHeader_fits, by simp, by decide⟩
  have executed :
      process defaultChain 4 (WireBlock.view { header := Octopus.sampleHeader }) emptyParent =
        .ok (.ok ([], 0), emptyParent) := rfl
  exact ⟨_, _, _, executed,
    (readReceipts_writeReceipts_iff fits executed Store.empty ⟨0, 1, fun _ => 0⟩).mpr rfl⟩

/-- The block is executed, and reading its receipts dereferences a nil pointer. -/
theorem stored_receipts_not_readable :
    letI := rewardCrypto
    letI := destroyingEncoding
    ∃ receipts used after,
      process defaultChain 4 callBlock.view destructibleParent = .ok (.ok (receipts, used), after) ∧
      receipts.length = 1 ∧
      readReceipts ⟨0, 1, fun _ => 0⟩ (withReceipts Store.empty ⟨0, 1, fun _ => 0⟩ callBlock
        (receipts.map Receipt.full)) = .error nilDereference := by
  let := rewardCrypto
  let := destroyingEncoding
  have run : Computation.returns (fun res _ => res.toOption.any fun found =>
        found.1.length = 1 && found.1.all fun receipt =>
          receipt.gasUsed < uint64Size && (digits receipt.blockNumber).length ≤ 8)
      (process defaultChain 4 callBlock.view destructibleParent) = true := by
    decide +kernel
  rcases Computation.exists_of_returns run with ⟨res, after, executed, checks⟩
  rcases res with error | ⟨receipts, used⟩
  · cases checks
  simp only [Except.toOption, Option.any_some, Bool.and_eq_true, decide_eq_true_eq,
    List.all_eq_true] at checks
  rcases checks with ⟨single, small⟩
  refine ⟨receipts, used, after, executed, single, ?_⟩
  apply readReceipts_fault callBlock_fits (by simp [callBlock]) (by simpa [callBlock] using single)
  have limit : maxAlloc = 2 ^ 48 := rfl
  apply (sliceCodec_within (fun _ => maxAlloc + 400) _ _).completes
  · intro receipt mem
    rcases List.mem_map.mp mem with ⟨made, there, rfl⟩
    have few := (small made there).2
    exact full_within (small made there).1 (by omega)
  · rw [List.map_const', List.length_map, single, limit]
    decide

end KeyValue

end Octopus
