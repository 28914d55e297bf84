import Octopus.Blockchain.Opening
import Octopus.Blockchain.Write
import Octopus.Library.Runs

/-!
# Runs of block writes

Every successful call of `writeBlockAndSetHead` stores its block.  A block that wins the
fork choice becomes the head in memory, but no call adds to the canonical index or moves a
head marker: the index is exact as long as every block of the run loses the fork choice, and
wrong from the first new head on.
-/

namespace Octopus

open Library

variable {key : DbKey} {value : key.Value}

/-- The arguments of a call of `writeBlockAndSetHead`, with the draw of its fork
choice. -/
structure BlockWrite where
  block : Block
  receipts : List Receipt
  state : OperationDB
  coin : Bool

namespace BlockChain

variable [Crypto] [Encoding]

def WriteStep (setup : ChainSetup) (fuel : Nat) (before : BlockChain) (write : BlockWrite)
    (after : BlockChain) : Prop :=
  ∃ status, writeBlockAndSetHead setup fuel write.coin write.block write.receipts write.state
    before = .ok (.ok status, after)

def Loses (setup : ChainSetup) (chain : BlockChain) (write : BlockWrite) : Prop :=
  ∃ stored, writeBlockWithState setup write.block write.receipts write.state chain =
    .ok (.ok (), stored) ∧ stored.verdict setup write.coin write.block = some false

abbrev WriteRun (setup : ChainSetup) (fuel : Nat) :
    BlockChain → List BlockWrite → BlockChain → Prop :=
  Run (WriteStep setup fuel)

def AllLose (setup : ChainSetup) (fuel : Nat) (start : BlockChain) (writes : List BlockWrite) :
    Prop :=
  ∀ front write chain, front ++ [write] <+: writes → WriteRun setup fuel start front chain →
    chain.Loses setup write

variable {setup : ChainSetup} {fuel : Nat}

theorem WriteStep.functional (old : BlockChain) (write : BlockWrite) (new other : BlockChain)
    (first : WriteStep setup fuel old write new)
    (second : WriteStep setup fuel old write other) : new = other := by
  rcases first with ⟨_, ran⟩
  rcases second with ⟨_, otherReturned⟩
  rw [ran] at otherReturned
  cases otherReturned
  rfl

/-- A successful call stores its block.  If it loses, the rest stays; if it wins, it is the head
in memory, and the index can only lose entries. -/
theorem WriteStep.cases {old new : BlockChain} {write : BlockWrite}
    (step : WriteStep setup fuel old write new) :
    ∃ stored, old.Stored stored write.block write.receipts ∧
      ((old.Loses setup write ∧ ∃ caches, new = { stored with caches := caches }) ∨
        ¬old.Loses setup write ∧ ∃ (caches : HeaderCaches) (keys : List DbKey),
          (∀ key ∈ keys, key.isCanonical = true) ∧
          new = { stored with
            caches := caches
            db := stored.db.commit (keys.map .delete)
            currentHeader := write.block.header
            currentBlock := write.block }) := by
  rcases step with ⟨_, ran⟩
  rcases writeBlockAndSetHead_cases ran with ⟨-, impossible, -⟩ | ⟨-, outcome⟩
  · cases impossible
  rcases outcome with ⟨_, -, -, impossible⟩ | ⟨stored, wrote, kept, chosen⟩
  · cases impossible
  refine ⟨stored, kept, ?_⟩
  cases setHead_outcome chosen with
  | side lost caches => exact .inl ⟨⟨stored, wrote, lost⟩, caches, rfl⟩
  | canon won caches keys stale =>
    refine .inr ⟨?_, caches, keys, stale, rfl⟩
    rintro ⟨_, again, lost⟩
    rw [wrote] at again
    cases again
    rw [won] at lost
    cases lost

variable {old new start final : BlockChain} {write : BlockWrite} {writes : List BlockWrite}

section

variable (step : WriteStep setup fuel old write new)
include step

theorem WriteStep.lookup_index (index : key.isIndex = true)
    (found : new.db.lookup key = some value) : old.db.lookup key = some value := by
  rcases step.cases with ⟨_, kept, ⟨-, caches, rfl⟩ | ⟨-, caches, _, -, rfl⟩⟩
  · rwa [← kept.lookup_index index]
  · rw [← kept.lookup_index index]
    exact Store.lookup_of_lookup_commit_deletes found

theorem WriteStep.lookup_marker (index : key.isIndex = true) (marker : key.isCanonical = false) :
    new.db.lookup key = old.db.lookup key := by
  rcases step.cases with ⟨_, kept, ⟨-, caches, rfl⟩ | ⟨-, caches, _, stale, rfl⟩⟩
  · exact kept.lookup_index index
  rw [← kept.lookup_index index]
  apply Store.lookup_commit_of_untouched
  intro _ mem same
  rcases List.mem_map.mp mem with ⟨deleted, listed, rfl⟩
  have canon := stale deleted listed
  rw [show deleted = key from same, marker] at canon
  cases canon

theorem WriteStep.of_loses (loses : old.Loses setup write) :
    new.currentBlock = old.currentBlock ∧ new.currentHeader = old.currentHeader ∧
      ∀ key : DbKey, key.isIndex = true → new.db.lookup key = old.db.lookup key := by
  rcases step.cases with ⟨_, kept, ⟨-, _, rfl⟩ | ⟨wins, -⟩⟩
  · refine ⟨?_, ?_, fun key index => kept.lookup_index index⟩
    · rcases kept with ⟨td, _, _, rfl⟩
      rfl
    · rcases kept with ⟨td, _, _, rfl⟩
      rfl
  · exact absurd loses wins

theorem WriteStep.of_not_loses (wins : ¬old.Loses setup write) :
    new.currentBlock = write.block ∧ new.currentHeader = write.block.header := by
  rcases step.cases with ⟨_, _, ⟨loses, -⟩ | ⟨-, _, _, -, rfl⟩⟩
  · exact absurd loses wins
  · exact ⟨rfl, rfl⟩

end

section

variable (run : WriteRun setup fuel start writes final)
include run

theorem lookup_index_of_run (index : key.isIndex = true)
    (found : final.db.lookup key = some value) : start.db.lookup key = some value := by
  refine run.invariant (fun _ chain => chain.db.lookup key = some value →
    start.db.lookup key = some value) id ?_ found
  intro _ _ chain _ _ _ step earlier here
  exact earlier (step.lookup_index index here)

theorem lookup_marker_of_run (index : key.isIndex = true) (marker : key.isCanonical = false) :
    final.db.lookup key = start.db.lookup key := by
  refine run.invariant (fun _ chain => chain.db.lookup key = start.db.lookup key) rfl ?_
  intro _ _ chain _ _ _ step earlier
  exact (step.lookup_marker index marker).trans earlier

end

variable (lose : AllLose setup fuel start writes)
include lose

theorem AllLose.unchanged (run : WriteRun setup fuel start writes final) :
    final.currentBlock = start.currentBlock ∧ final.currentHeader = start.currentHeader ∧
      ∀ key : DbKey, key.isIndex = true → final.db.lookup key = start.db.lookup key := by
  refine run.invariant (fun _ chain => chain.currentBlock = start.currentBlock ∧
    chain.currentHeader = start.currentHeader ∧
    ∀ key : DbKey, key.isIndex = true → chain.db.lookup key = start.db.lookup key)
    ⟨rfl, rfl, fun _ _ => rfl⟩ ?_
  intro front write chain _ shorter reached step earlier
  rcases step.of_loses (lose front write chain shorter reached) with ⟨block, header, index⟩
  refine ⟨block.trans earlier.1, header.trans earlier.2.1, ?_⟩
  intro key isIndex
  exact (index key isIndex).trans (earlier.2.2 key isIndex)

theorem AllLose.of_shorter {front : List BlockWrite} (shorter : front <+: writes) :
    AllLose setup fuel start front := by
  intro earlier write chain within reached
  exact lose earlier write chain (within.trans shorter) reached

end BlockChain

open Rawdb

namespace BlockChain

section

variable [Encoding]

/-- The ancestors of a head among the blocks of a history, the head included. -/
inductive Ancestor (history : List Block) (head : Block) : Block → Prop where
  | self : Ancestor history head head
  | parent {child block : Block} (below : Ancestor history head child) (known : block ∈ history)
      (hash : block.hash = child.parentHash) (number : block.number + 1 = child.number) :
      Ancestor history head block

/-- The persisted index is the ancestry of the head, and the lookup holds the
transactions of its blocks. -/
structure IndexExact (history : List Block) (chain : BlockChain) : Prop where
  canonical : ∀ number ≤ chain.currentBlock.number,
    ∃ block, Ancestor history chain.currentBlock block ∧ block.number = number ∧
      readCanonicalHash chain.db number = block.hash
  above : ∀ number, chain.currentBlock.number < number → readCanonicalHash chain.db number = 0
  lookup : ∀ hash number, readTxLookupEntry chain.db hash = some number ↔
    ∃ block tx, Ancestor history chain.currentBlock block ∧ block.number = number ∧
      some tx ∈ block.transactions ∧ Encoding.txHash tx = hash

theorem Ancestor.eq_head {history : List Block} {head block : Block}
    (ancestor : Ancestor history head block) :
    block.number ≤ head.number ∧ (block.number = head.number → block = head) := by
  induction ancestor with
  | self => exact ⟨le_rfl, fun _ => rfl⟩
  | @parent _ block _ _ _ num _ =>
    have less : block.number < head.number := by omega
    exact ⟨less.le, fun same => absurd same less.ne⟩

theorem IndexExact.head {history : List Block} {chain : BlockChain}
    (isExact : IndexExact history chain) :
    readCanonicalHash chain.db chain.currentBlock.number = chain.currentBlock.hash := by
  rcases isExact.canonical chain.currentBlock.number le_rfl with ⟨_, ancestor, num, named⟩
  rwa [ancestor.eq_head.2 num] at named

theorem stored_hash (block : Block) : block.stored.hash = block.hash :=
  Encoding.headerHash_stored block.header

def history (genesis : Block) (writes : List BlockWrite) : List Block :=
  genesis :: writes.map BlockWrite.block

variable {genesis : Genesis} {root : Hash} {operationCache : Database} {start : BlockChain}

section

variable (opened : OpensAt genesis root operationCache start)
  (nonzero : (genesis.toBlock root).hash ≠ 0)
include opened nonzero

theorem OpensAt.head :
    start.currentBlock = (genesis.toBlock root).stored ∧
      start.currentHeader = (genesis.toBlock root).stored.header := by
  rcases opened with ⟨_, committed, built⟩
  rcases (headsAt_of_commit committed nonzero).opens operationCache with ⟨_, same⟩
  rw [same] at built
  cases built
  exact ⟨rfl, rfl⟩

theorem OpensAt.commit_db : genesis.commit root = some start.db := by
  rcases opened with ⟨db, committed, built⟩
  rcases (headsAt_of_commit committed nonzero).opens operationCache with ⟨_, same⟩
  rw [same] at built
  cases built
  exact committed

end

theorem indexExact_of_unchanged {chain : BlockChain} (blocks : List Block)
    (opened : OpensAt genesis root operationCache start) (nonzero : (genesis.toBlock root).hash ≠ 0)
    (head : chain.currentBlock = start.currentBlock)
    (index : ∀ key : DbKey, key.isIndex = true → chain.db.lookup key = start.db.lookup key) :
    IndexExact blocks chain := by
  have committed := opened.commit_db nonzero
  have atGenesis : chain.currentBlock = (genesis.toBlock root).stored :=
    head.trans (opened.head nonzero).1
  have zero : chain.currentBlock.number = 0 := by
    rw [atGenesis]
    exact number_of_commit committed
  have canon : ∀ num, chain.db.lookup (.canonical num) =
      if num = 0 then some (genesis.toBlock root).hash else none := by
    intro num
    rw [index _ rfl, lookup_canonical_of_commit committed]
  have noLookup : ∀ hash, chain.db.lookup (.txLookup hash) = none := by
    intro hash
    rw [index _ rfl, lookup_txLookup_of_commit committed]
  refine ⟨?_, ?_, ?_⟩
  · intro num bounded
    obtain rfl : num = 0 := by omega
    refine ⟨chain.currentBlock, .self, zero, ?_⟩
    rw [readCanonicalHash, canon, if_pos rfl, atGenesis, stored_hash]
    rfl
  · intro num _
    rw [readCanonicalHash, canon, if_neg (by omega)]
    rfl
  · intro hash num
    rw [readTxLookupEntry, noLookup]
    constructor
    · intro impossible
      cases impossible
    · rintro ⟨block, _, ancestor, -, mem, -⟩
      -- Below the genesis block there is nothing, and it has no transactions.
      have same : block = chain.currentBlock :=
        ancestor.eq_head.2 (by have bounded := ancestor.eq_head.1; omega)
      rw [same, atGenesis] at mem
      simp [Block.stored, Header.withBody, Body.stored, Genesis.toBlock]
        at mem

end

variable [Crypto] [Encoding]

/-- In a run whose blocks have hashes of their own, the index is exact in every state reached
exactly if every block loses the fork choice. -/
theorem indexExact_along_run_iff {setup : ChainSetup} {fuel : Nat} {genesis : Genesis}
    {root : Hash} {operationCache : Database} {start final : BlockChain}
    {writes : List BlockWrite} (opened : OpensAt genesis root operationCache start)
    (nonzero : (genesis.toBlock root).hash ≠ 0) (fresh : ∀ write ∈ writes,
      write.block.hash ≠ 0 ∧ write.block.hash ≠ (genesis.toBlock root).hash)
    (run : WriteRun setup fuel start writes final) :
    (∀ front chain, front <+: writes → WriteRun setup fuel start front chain →
        IndexExact (history (genesis.toBlock root) front) chain) ↔
      AllLose setup fuel start writes := by
  constructor
  · intro always front write chain shorter reached
    rcases run.step_of_shorter WriteStep.functional shorter reached with ⟨next, step, longer⟩
    by_contra wins
    have isExact := always _ next shorter longer
    have head := (step.of_not_loses wins).1
    have named := isExact.head
    rw [head] at named
    have own := fresh write (shorter.subset (by simp))
    -- The entry of the new head would have to be there from the start.
    rcases entry : next.db.lookup (.canonical write.block.number) with _ | hash
    · rw [readCanonicalHash, entry] at named
      exact own.1 named.symm
    have earlier := lookup_index_of_run longer rfl entry
    rw [lookup_canonical_of_commit (opened.commit_db nonzero)] at earlier
    split_ifs at earlier with first
    · rw [readCanonicalHash, entry, ← earlier] at named
      exact own.2 named.symm
  · intro lose front chain shorter reached
    rcases (lose.of_shorter shorter).unchanged reached with ⟨head, -, index⟩
    exact indexExact_of_unchanged _ opened nonzero head index

end BlockChain

attribute [local instance] sampleEncoding emptyStateCrypto

def sampleWrite (number difficulty : Nat) : BlockWrite where
  block := { header := sampleChild number difficulty }
  receipts := []
  state := { database := emptyDatabase, originalRoot := emptyRoot, trie := fun _ => none }
  coin := false

def writeStatus : Except ChainError WriteStatus → Option WriteStatus
  | .ok status => some status
  | .error _ => none

theorem exists_sample_write {write : BlockWrite} {expected : WriteStatus} {test : BlockChain → Bool}
    (passes : sampleStart.any (fun start => Computation.returns
      (fun result new => writeStatus result = some expected && test new)
      (BlockChain.writeBlockAndSetHead fakeSetup 4 false write.block write.receipts write.state
        start)) = true) (quiet : write.coin = false) :
    ∃ start final, sampleStart = some start ∧ BlockChain.WriteStep fakeSetup 4 start write final ∧
      test final = true := by
  rcases opened : sampleStart with _ | start
  · rw [opened] at passes
    cases passes
  rw [opened, Option.any_some] at passes
  rcases Computation.exists_of_returns passes with ⟨result, final, ran, tested⟩
  rw [Bool.and_eq_true, decide_eq_true_eq] at tested
  rcases result with error | status
  · cases tested.1
  · exact ⟨start, final, rfl, ⟨status, by rwa [quiet]⟩, tested.2⟩

theorem sample_extension :
    ∃ start final, sampleStart = some start ∧
      BlockChain.WriteRun fakeSetup 4 start [sampleWrite 1 131072] final ∧
      final.currentBlock = (sampleWrite 1 131072).block := by
  rcases @exists_sample_write (sampleWrite 1 131072) .canon
    (fun new => new.currentBlock = (sampleWrite 1 131072).block) (by decide +kernel) rfl with
    ⟨start, final, opened, step, tested⟩
  exact ⟨start, final, opened, .snoc .nil step, of_decide_eq_true tested⟩

theorem sample_side :
    ∃ start final, sampleStart = some start ∧
      BlockChain.WriteRun fakeSetup 4 start [sampleWrite 0 0] final ∧
      BlockChain.AllLose fakeSetup 4 start [sampleWrite 0 0] := by
  rcases @exists_sample_write (sampleWrite 0 0) .side
    (fun new => new.currentBlock ≠ (sampleWrite 0 0).block) (by decide +kernel) rfl with
    ⟨start, final, opened, step, tested⟩
  refine ⟨start, final, opened, .snoc .nil step, ?_⟩
  intro _ _ _ shorter reached
  rcases eq_of_shorter_singleton shorter with ⟨rfl, rfl⟩
  obtain rfl := reached.nil_inv
  by_contra wins
  exact of_decide_eq_true tested (step.of_not_loses wins).1

theorem side_write_index_exact :
    ∃ start final, sampleStart = some start ∧
      BlockChain.WriteRun fakeSetup 4 start [sampleWrite 0 0] final ∧
      ∀ front chain, front <+: [sampleWrite 0 0] →
        BlockChain.WriteRun fakeSetup 4 start front chain →
        BlockChain.IndexExact (BlockChain.history (sampleGenesis.toBlock emptyRoot) front)
          chain := by
  rcases sample_side with ⟨start, final, opened, run, lose⟩
  refine ⟨start, final, opened, run, ?_⟩
  refine (BlockChain.indexExact_along_run_iff (opensAt_of_sampleStart opened) ?_ ?_ run).mpr lose
  · decide
  · intro _ mem
    rw [List.mem_singleton] at mem
    subst mem
    decide +kernel

theorem extension_not_indexed :
    ∃ start final, sampleStart = some start ∧
      BlockChain.WriteRun fakeSetup 4 start [sampleWrite 1 131072] final ∧
      final.currentBlock.number = 1 ∧ readCanonicalHash final.db 1 = 0 ∧
      ¬BlockChain.IndexExact
        (BlockChain.history (sampleGenesis.toBlock emptyRoot) [sampleWrite 1 131072]) final := by
  rcases sample_extension with ⟨start, final, opened, run, head⟩
  have nonzero : (sampleGenesis.toBlock emptyRoot).hash ≠ 0 := by decide
  have committed := (opensAt_of_sampleStart opened).commit_db nonzero
  have absent : final.db.lookup (.canonical 1) = none := by
    rcases entry : final.db.lookup (.canonical 1) with _ | hash
    · rfl
    · have earlier := BlockChain.lookup_index_of_run run rfl entry
      rw [BlockChain.lookup_canonical_of_commit committed] at earlier
      cases earlier
  have unnamed : readCanonicalHash final.db 1 = 0 := by
    rw [readCanonicalHash, absent]
    rfl
  have number : final.currentBlock.number = 1 := by
    rw [head]
    rfl
  refine ⟨start, final, opened, run, number, unnamed, ?_⟩
  intro isExact
  have named := isExact.head
  rw [number, unnamed, head] at named
  revert named
  decide +kernel

end Octopus
