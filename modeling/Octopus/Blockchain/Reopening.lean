import Octopus.Blockchain.WriteRuns

/-!
# Reopening a chain

After a run from a genesis block the chain is closed and opened again.  The head markers
still name the genesis block, and blocks are looked up under the number zero, so the head
comes back only if it never moved, and only blocks of number zero are found again.
-/

namespace Octopus

open Library List Rawdb

variable {block : Block} {hash : Hash} {db : ChainDb} {num : Nat}

/-- A block with the headers in the form that the encoding has, where a missing
base fee is zero. -/
def Block.normal (block : Block) : Block :=
  { block with header := block.header.stored, uncles := block.uncles.map Header.stored }

def Block.Findable (block : Block) : Prop :=
  block.numberU64 = 0 ∧ ∀ tx ∈ block.transactions, tx = none

theorem Block.normal_stored (block : Block) :
    block.stored.normal =
      { block.normal with transactions := block.transactions.map fun _ => none } := by
  simp [stored, normal, Header.stored, Header.withBody, body, Body.stored]

theorem Block.normal_stored_of_findable (findable : block.Findable) :
    block.stored.normal = block.normal := by
  have hollow : (block.transactions.map fun _ => none) = block.transactions := by
    conv_rhs => rw [← map_id block.transactions]
    apply map_congr_left
    intro tx mem
    exact (findable.2 tx mem).symm
  rw [normal_stored, hollow]
  rfl

theorem Block.findable_of_normal_eq {other : Block} (num : other.numberU64 = 0)
    (same : other.stored.normal = block.normal) : block.Findable := by
  have headers : other.header.stored = block.header.stored := congrArg Block.header same
  have transactions : (other.transactions.map fun _ => none) = block.transactions :=
    congrArg Block.transactions same
  constructor
  · have numbers : other.header.stored.numberU64 = block.header.stored.numberU64 := by rw [headers]
    exact numbers.symm.trans num
  · intro _ mem
    rw [← transactions] at mem
    rcases mem_map.mp mem with ⟨_, -, rfl⟩
    rfl

namespace BlockChain

theorem stop_eq_ok_iff (setup : ChainSetup) (chain : BlockChain) :
    chain.stop setup = .ok () ↔ setup.trieDirtyDisabled = true := by
  unfold stop
  split_ifs with disabled
  · simp [disabled]
  · rcases chain.commitRecent with _ | _ <;> simp [disabled, bind, Except.bind]

section

variable [Encoding]

/-- Closing the chain and opening it again restores the head, and every block of
the history is found by its hash. -/
structure Durable (setup : ChainSetup) (blocks : List Block) (chain : BlockChain) : Prop where
  reopened : ∃ again, chain.stop setup = .ok () ∧
    newBlockChain chain.db chain.operationCache = .ok (.ok again) ∧
    again.currentBlock = chain.currentBlock ∧ again.currentHeader = chain.currentHeader
  found : ∀ block ∈ blocks, ∃ read, chain.getBlockByHash block.hash = some read ∧
    read.normal = block.normal

theorem newBlockChain_of_no_genesis (operationCache : Database)
    (missing : db.lookup (.canonical 0) = none) :
    newBlockChain db operationCache = .ok (.error .genesisHeaderMissing) := by
  have absent : readCanonicalHash db 0 = 0 := by
    rw [readCanonicalHash, missing]
    rfl
  simp [newBlockChain, HeaderCaches.getHeaderByNumber, absent]

theorem readBlock_of_commit {genesis : Genesis} {root : Hash}
    (committed : genesis.commit root = some db)
    (read : Rawdb.readBlock db hash num = some block) :
    hash = (genesis.toBlock root).hash ∧ num = (genesis.toBlock root).numberU64 ∧
      block = (genesis.toBlock root).stored := by
  rw [Rawdb.readBlock, Rawdb.readHeader, Rawdb.readBody, lookup_block_of_commit committed rfl,
    lookup_block_of_commit committed rfl, ← Rawdb.readHeader, ← Rawdb.readBody,
    ← Rawdb.readBlock] at read
  by_cases own : num = (genesis.toBlock root).numberU64 ∧ hash = (genesis.toBlock root).hash
  · rw [own.1, own.2, readBlock_blockBatch] at read
    exact ⟨own.2, own.1, (Option.some.inj read).symm⟩
  · rw [readBlock_blockBatch_of_ne own] at read
    cases read

end

variable [Crypto] [Encoding] {setup : ChainSetup} {fuel : Nat}
  {old new start final : BlockChain} {write : BlockWrite} {writes : List BlockWrite}

section

variable (step : WriteStep setup fuel old write new)
include step

theorem WriteStep.lookup_block :
    ∃ td, ∀ key : DbKey, key.isIndex = false → new.db.lookup key =
      (old.db.commit (blockBatch write.block write.receipts td)).lookup key := by
  rcases step.cases with ⟨_, ⟨td, _, _, rfl⟩, ⟨-, caches, rfl⟩ | ⟨-, caches, _, stale, rfl⟩⟩
  · exact ⟨td, fun key _ => rfl⟩
  refine ⟨td, fun key block => ?_⟩
  apply Store.lookup_commit_of_untouched
  intro _ mem same
  rcases mem_map.mp mem with ⟨deleted, listed, rfl⟩
  have canon := stale deleted listed
  rw [show deleted = key from same] at canon
  cases key <;> simp [DbKey.isIndex, DbKey.isCanonical] at block canon

theorem WriteStep.readBlock (hash : Hash) (num : Nat) :
    Rawdb.readBlock new.db hash num =
      if num = write.block.numberU64 ∧ hash = write.block.hash then some write.block.stored
      else Rawdb.readBlock old.db hash num := by
  rcases step.lookup_block with ⟨_, tables⟩
  rw [Rawdb.readBlock, Rawdb.readHeader, Rawdb.readBody, tables _ rfl, tables _ rfl,
    ← Rawdb.readHeader, ← Rawdb.readBody, ← Rawdb.readBlock]
  split_ifs with own
  · rw [own.1, own.2, readBlock_blockBatch]
  · exact readBlock_blockBatch_of_ne own

end

variable {genesis : Genesis} {root : Hash} {operationCache : Database}

theorem mem_history_of_readBlock (committed : genesis.commit root = some start.db)
    (run : WriteRun setup fuel start writes final)
    (read : Rawdb.readBlock final.db hash num = some block) :
    ∃ source ∈ history (genesis.toBlock root) writes, source.hash = hash ∧
      source.numberU64 = num ∧ block = source.stored := by
  refine run.invariant (fun front chain => Rawdb.readBlock chain.db hash num = some block →
    ∃ source ∈ history (genesis.toBlock root) front, source.hash = hash ∧
      source.numberU64 = num ∧ block = source.stored) ?_ ?_ read
  · intro here
    rcases readBlock_of_commit committed here with ⟨rfl, rfl, rfl⟩
    exact ⟨genesis.toBlock root, mem_cons_self, rfl, rfl, rfl⟩
  · intro front write chain _ _ _ step earlier here
    rw [step.readBlock] at here
    split_ifs at here with own
    · refine ⟨write.block, ?_, own.2.symm, own.1.symm, (Option.some.inj here).symm⟩
      simp [history]
    · rcases earlier here with ⟨source, mem, rest⟩
      refine ⟨source, ?_, rest⟩
      rw [history, map_append, ← cons_append]
      exact mem_append_left _ mem

section

variable (run : WriteRun setup fuel start writes final)
include run

theorem readBlock_of_mem :
    ∀ write ∈ writes, Rawdb.readBlock final.db write.block.hash write.block.numberU64 ≠ none := by
  refine run.invariant (fun front chain => ∀ write ∈ front,
    Rawdb.readBlock chain.db write.block.hash write.block.numberU64 ≠ none) (by simp) ?_
  intro front _ chain _ _ _ step earlier write mem
  rw [step.readBlock]
  split_ifs with own
  · exact Option.some_ne_none _
  · rcases mem_append.mp mem with old | only
    · exact earlier write old
    · rw [mem_singleton.mp only] at own
      exact absurd ⟨rfl, rfl⟩ own

theorem kept_of_fresh (fresh : ∀ write ∈ writes, write.block.hash ≠ hash) (num : Nat) :
    Rawdb.readBlock final.db hash num = Rawdb.readBlock start.db hash num ∧
      readHeaderNumber final.db hash = readHeaderNumber start.db hash := by
  refine run.invariant (fun _ chain =>
    Rawdb.readBlock chain.db hash num = Rawdb.readBlock start.db hash num ∧
      readHeaderNumber chain.db hash = readHeaderNumber start.db hash) ⟨rfl, rfl⟩ ?_
  intro _ write chain _ shorter _ step earlier
  have other := fresh write (shorter.subset (by simp))
  constructor
  · rw [step.readBlock, if_neg (fun own => other own.2.symm), earlier.1]
  · rcases step.lookup_block with ⟨_, tables⟩
    rw [readHeaderNumber, tables _ rfl, Store.lookup_commit_of_untouched]
    · exact earlier.2
    · intro _ mem same
      rcases key_of_mem_blockBatch mem with found | found | found | found | found
      all_goals
        rw [found] at same
        cases same
      exact other rfl

end

section

variable (opened : OpensAt genesis root operationCache start)
  (nonzero : (genesis.toBlock root).hash ≠ 0)
  (fresh : ∀ write ∈ writes, write.block.hash ≠ (genesis.toBlock root).hash)
  (run : WriteRun setup fuel start writes final)
include opened nonzero fresh run

theorem headsAt_of_run
    (canon : final.db.lookup (.canonical 0) = some (genesis.toBlock root).hash) :
    HeadsAt final.db (genesis.toBlock root).hash (genesis.toBlock root).stored := by
  have heads := headsAt_of_commit (opened.commit_db nonzero) nonzero
  have kept := kept_of_fresh run fresh 0
  refine ⟨nonzero, ?_, ?_, ?_, ?_, ?_⟩
  · rw [readCanonicalHash, canon]
    rfl
  · rw [readHeadBlockHash, lookup_marker_of_run run rfl rfl, ← readHeadBlockHash, heads.headBlock]
  · rw [readHeadHeaderHash, lookup_marker_of_run run rfl rfl, ← readHeadHeaderHash,
      heads.headHeader]
  · rw [kept.2, heads.number]
  · rw [kept.1, heads.readBlock]

theorem reopened_head {again : BlockChain} {cache : Database}
    (built : newBlockChain final.db cache = .ok (.ok again)) :
    again.currentBlock = (genesis.toBlock root).stored := by
  rcases entry : final.db.lookup (.canonical 0) with _ | hash
  · rw [newBlockChain_of_no_genesis cache entry] at built
    cases built
  have earlier := lookup_index_of_run run rfl entry
  rw [lookup_canonical_of_commit (opened.commit_db nonzero), if_pos rfl] at earlier
  rw [← earlier] at entry
  rcases (headsAt_of_run opened nonzero fresh run entry).opens cache with ⟨_, same⟩
  rw [same] at built
  cases built
  rfl

end

/-- `Stop` does not reach its queue, no block wins the fork choice, every block is found by its
hash, and no two blocks share a hash. -/
structure Survives (setup : ChainSetup) (fuel : Nat) (start : BlockChain)
    (writes : List BlockWrite) : Prop where
  disabled : setup.trieDirtyDisabled = true
  lose : AllLose setup fuel start writes
  findable : ∀ write ∈ writes, write.block.Findable
  distinct : ∀ first ∈ writes, ∀ second ∈ writes, first.block.hash = second.block.hash →
    first.block.normal = second.block.normal

section

variable (survives : Survives setup fuel start writes)
include survives

theorem Survives.of_shorter {front : List BlockWrite} (shorter : front <+: writes) :
    Survives setup fuel start front where
  disabled := survives.disabled
  lose := survives.lose.of_shorter shorter
  findable write mem := survives.findable write (shorter.subset mem)
  distinct first mem second other :=
    survives.distinct first (shorter.subset mem) second (shorter.subset other)

variable (fresh : ∀ write ∈ writes, write.block.hash ≠ (genesis.toBlock root).hash)
  (run : WriteRun setup fuel start writes final)
include fresh run

theorem Survives.found (committed : genesis.commit root = some start.db)
    {write : BlockWrite} (mem : write ∈ writes) :
    ∃ read, final.getBlockByHash write.block.hash = some read ∧
      read.normal = write.block.normal := by
  have here := readBlock_of_mem run write mem
  rw [(survives.findable write mem).1] at here
  rcases Option.ne_none_iff_exists'.mp here with ⟨read, stored⟩
  refine ⟨read, stored, ?_⟩
  rcases mem_history_of_readBlock committed run stored with ⟨_, listed, hash, -, rfl⟩
  rcases mem_cons.mp listed with rfl | wrote
  · exact absurd hash.symm (fresh write mem)
  · rcases mem_map.mp wrote with ⟨other, otherMember, rfl⟩
    rw [Block.normal_stored_of_findable (survives.findable other otherMember)]
    exact survives.distinct other otherMember write mem hash

theorem Survives.durable (opened : OpensAt genesis root operationCache start)
    (nonzero : (genesis.toBlock root).hash ≠ 0) :
    Durable setup (history (genesis.toBlock root) writes) final := by
  have committed := opened.commit_db nonzero
  rcases survives.lose.unchanged run with ⟨block, header, index⟩
  have atGenesis := opened.head nonzero
  have canon : final.db.lookup (.canonical 0) = some (genesis.toBlock root).hash := by
    rw [index _ rfl, lookup_canonical_of_commit committed, if_pos rfl]
  have heads := headsAt_of_run opened nonzero fresh run canon
  constructor
  · rcases heads.opens final.operationCache with ⟨_, built⟩
    refine ⟨_, (stop_eq_ok_iff setup final).mpr survives.disabled, built, ?_, ?_⟩
    · rw [block, atGenesis.1]
    · rw [header, atGenesis.2]
  · intro _ mem
    rcases mem_cons.mp mem with rfl | wrote
    · refine ⟨(genesis.toBlock root).stored, heads.readBlock, ?_⟩
      apply Block.normal_stored_of_findable
      exact ⟨numberU64_of_commit committed, by simp [Genesis.toBlock, newBlock]⟩
    · rcases mem_map.mp wrote with ⟨write, listed, rfl⟩
      exact survives.found fresh run committed listed

end

theorem findable_of_found (committed : genesis.commit root = some start.db)
    (run : WriteRun setup fuel start writes final) {read : Block}
    (found : final.getBlockByHash block.hash = some read) (same : read.normal = block.normal) :
    block.Findable := by
  rcases mem_history_of_readBlock committed run found with ⟨_, -, -, num, rfl⟩
  exact Block.findable_of_normal_eq num same

/-- In a run whose blocks do not have the hash of the genesis block, every state reached survives
closing exactly if the trie cache is disabled, no block wins the fork choice, all blocks have
the number zero and no transactions to lose, and blocks of one hash are the same. -/
theorem durable_along_run_iff (opened : OpensAt genesis root operationCache start)
    (nonzero : (genesis.toBlock root).hash ≠ 0)
    (fresh : ∀ write ∈ writes, write.block.hash ≠ (genesis.toBlock root).hash)
    (run : WriteRun setup fuel start writes final) :
    (∀ front chain, front <+: writes → WriteRun setup fuel start front chain →
        Durable setup (history (genesis.toBlock root) front) chain) ↔
      Survives setup fuel start writes := by
  have committed := opened.commit_db nonzero
  constructor
  · intro always
    have last := always writes final (List.prefix_refl _) run
    have foundIn : ∀ write ∈ writes, ∃ read,
        final.getBlockByHash write.block.hash = some read ∧ read.normal = write.block.normal := by
      intro write mem
      exact last.found write.block (List.mem_cons_of_mem _ (List.mem_map_of_mem mem))
    rcases last.reopened with ⟨_, stopped, -⟩
    refine ⟨(stop_eq_ok_iff setup final).mp stopped, ?_, ?_, ?_⟩
    · intro front write chain shorter reached
      rcases run.step_of_shorter WriteStep.functional shorter reached with ⟨next, step, longer⟩
      by_contra wins
      rcases (always _ next shorter longer).reopened with ⟨_, -, built, block, -⟩
      have restored := reopened_head opened nonzero
        (fun other mem => fresh other (shorter.subset mem)) longer built
      rw [block, (step.of_not_loses wins).1] at restored
      apply fresh write (shorter.subset (by simp))
      rw [restored, stored_hash]
    · intro write mem
      rcases foundIn write mem with ⟨read, found, same⟩
      exact findable_of_found committed run found same
    · intro first firstMember second secondMember hash
      rcases foundIn first firstMember with ⟨read, found, same⟩
      rcases foundIn second secondMember with ⟨other, otherFound, otherSame⟩
      rw [hash, otherFound] at found
      cases found
      exact same.symm.trans otherSame
  · intro survives front chain shorter reached
    exact (survives.of_shorter shorter).durable
      (fun write mem => fresh write (shorter.subset mem)) reached opened nonzero

end BlockChain

attribute [local instance] sampleEncoding emptyStateCrypto

theorem side_write_durable :
    ∃ start final, sampleStart = some start ∧
      BlockChain.WriteRun fakeSetup 4 start [sampleWrite 0 0] final ∧
      ∀ front chain, front <+: [sampleWrite 0 0] →
        BlockChain.WriteRun fakeSetup 4 start front chain →
        BlockChain.Durable fakeSetup
          (BlockChain.history (sampleGenesis.toBlock emptyRoot) front) chain := by
  rcases sample_side with ⟨start, final, opened, run, lose⟩
  refine ⟨start, final, opened, run, ?_⟩
  refine (BlockChain.durable_along_run_iff (opensAt_of_sampleStart opened) ?_ ?_ run).mpr
    ⟨rfl, lose, ?_, ?_⟩
  · decide
  · intro write mem
    rw [List.mem_singleton] at mem
    subst mem
    decide +kernel
  · intro write mem
    rw [List.mem_singleton] at mem
    subst mem
    exact ⟨rfl, by simp [sampleWrite]⟩
  · intro _ firstMember _ secondMember _
    rw [List.mem_singleton] at firstMember secondMember
    rw [firstMember, secondMember]

/-- Extended by one block, the chain reopens at the genesis block, and the block is not found. -/
theorem extension_lost_on_reopening :
    ∃ start final, sampleStart = some start ∧
      BlockChain.WriteRun fakeSetup 4 start [sampleWrite 1 131072] final ∧
      final.currentBlock = (sampleWrite 1 131072).block ∧
      final.getBlockByHash (sampleWrite 1 131072).block.hash = none ∧
      ¬BlockChain.Durable fakeSetup
        (BlockChain.history (sampleGenesis.toBlock emptyRoot) [sampleWrite 1 131072]) final := by
  rcases sample_extension with ⟨start, final, opened, run, head⟩
  have nonzero : (sampleGenesis.toBlock emptyRoot).hash ≠ 0 := by decide
  have committed := (opensAt_of_sampleStart opened).commit_db nonzero
  have lost : final.getBlockByHash (sampleWrite 1 131072).block.hash = none := by
    rcases found : final.getBlockByHash (sampleWrite 1 131072).block.hash with _ | read
    · rfl
    rcases BlockChain.mem_history_of_readBlock committed run found with
      ⟨source, mem, hash, num, -⟩
    simp only [BlockChain.history, List.map_cons, List.map_nil, List.mem_cons,
      List.not_mem_nil, or_false] at mem
    rcases mem with rfl | rfl
    · exact absurd hash (by decide +kernel)
    · cases num
  refine ⟨start, final, opened, run, head, lost, ?_⟩
  intro durable
  rcases durable.found (sampleWrite 1 131072).block (by simp [BlockChain.history]) with
    ⟨read, found, -⟩
  rw [lost] at found
  cases found

end Octopus
