import Octopus.Blockchain.WriteRuns

/-!
# Total difficulties

The blocks that are written to a chain form a tree over its genesis block.  The total
difficulty stored for a block is the sum of the difficulties on its branch, and the head
never moves to a lighter branch.  The cache is keyed by hash alone; it is sound because a
hash leads to one branch only.
-/

namespace Octopus

open Library Rawdb List

variable {chain start : BlockChain} {block : Block} {res : Except ChainError Unit} {hash : Hash}
  {setup : ChainSetup} {coin : Bool} {path : List Block} {td : Nat}

theorem link_eq_of_stored_eq {first second : Block}
    (same : first.header.stored = second.header.stored) :
    first.number = second.number ∧ first.parentHash = second.parentHash ∧
      first.header.difficulty = second.header.difficulty := by
  have num := congrArg Header.number same
  have parentHash := congrArg Header.parentHash same
  have difficulty := congrArg Header.difficulty same
  exact ⟨num, parentHash, difficulty⟩

theorem parentNumber_of_next {parent : Block} (next : block.number = parent.number + 1) :
    block.parentNumber = parent.numberU64 := by
  have num : block.header.number = parent.header.number + 1 := next
  simp only [Block.parentNumber, Block.numberU64, Header.numberU64, uint64Size]
  omega

section

variable [Encoding]

/-- The blocks from one block of a tree down to its root. -/
inductive Branch (tree : List Block) (root : Block) : List Block → Block → Prop where
  | root : Branch tree root [root] root
  | child {path : List Block} {parent block : Block} (below : Branch tree root path parent)
      (member : block ∈ tree) (linked : block.parentHash = parent.hash)
      (next : block.number = parent.number + 1) : Branch tree root (block :: path) block

def totalDifficulty (path : List Block) : Nat :=
  (path.map fun block => block.header.difficulty).sum

/-- Blocks in the order of their writing: the parent of each is the root or comes before it. -/
structure ForkTree (root : Block) (blocks : List Block) : Prop where
  identified : ∀ first ∈ root :: blocks, ∀ second ∈ root :: blocks,
    first.hash = second.hash → first.header.stored = second.header.stored
  parentsFirst : ∀ front block, front ++ [block] <+: blocks → ∃ parent ∈ root :: front,
    block.parentHash = parent.hash ∧ block.number = parent.number + 1

variable {root : Block} {blocks : List Block}

theorem Branch.mem (branch : Branch blocks root path block) : block ∈ root :: blocks := by
  cases branch with
  | root => exact mem_cons_self
  | child _ mem _ _ => exact mem_cons_of_mem _ mem

theorem ForkTree.totalDifficulty_unique (tree : ForkTree root blocks) (first : root.number = 0)
    {other : List Block} {twin : Block} (branch : Branch blocks root path block)
    (second : Branch blocks root other twin) (same : block.hash = twin.hash) :
    totalDifficulty path = totalDifficulty other := by
  induction branch generalizing other twin with
  | root =>
    have link := link_eq_of_stored_eq (tree.identified _ mem_cons_self _ second.mem same)
    cases second with
    | root => rfl
    | child => omega
  | @child _ parent _ _ mem linked _ earlier =>
    have link := link_eq_of_stored_eq (tree.identified _ (mem_cons_of_mem _ mem) _ second.mem same)
    cases second with
    | root => omega
    | @child _ otherParent _ otherBelow _ otherLinked _ =>
      have parents : parent.hash = otherParent.hash := by rw [← linked, ← otherLinked, link.2.1]
      simp only [totalDifficulty, map_cons, sum_cons, link.2.2, Nat.add_left_cancel_iff]
      exact earlier otherBelow parents

theorem ForkTree.exists_branch (tree : ForkTree root blocks) (mem : block ∈ root :: blocks) :
    ∃ path, Branch blocks root path block := by
  suffices upTo : ∀ front, front <+: blocks → ∀ block ∈ root :: front,
      ∃ path, Branch blocks root path block from
    upTo blocks (prefix_refl _) block mem
  intro front
  induction front using reverseRecOn with
  | nil =>
    intro _ block mem
    obtain rfl : block = root := by simpa using mem
    exact ⟨_, .root⟩
  | append_singleton front last earlier =>
    intro shorter block mem
    have before := (prefix_append front [last]).trans shorter
    rcases mem_append.mp (cons_append ▸ mem) with old | new
    · exact earlier before block old
    · obtain rfl : block = last := by simpa using new
      rcases tree.parentsFirst front block shorter with ⟨parent, known, linked, next⟩
      rcases earlier before parent known with ⟨path, branch⟩
      exact ⟨_, .child branch (shorter.subset (by simp)) linked next⟩

end

namespace BlockChain

section

variable {relation : Hash → Nat → Prop} {caches : HeaderCaches} {db : ChainDb}

structure TdsHold (relation : Hash → Nat → Prop) (chain : BlockChain) : Prop where
  cached : chain.caches.tds.Holds relation
  stored : ∀ hash number td, Rawdb.readTd chain.db hash number = some td → relation hash td

theorem TdsHold.getTd (holds : TdsHold relation chain) (hash : Hash) (num : Nat) :
    (∀ td, (chain.getTd hash num).1 = some td → relation hash td) ∧
      TdsHold relation (chain.getTd hash num).2 := by
  have fetched := holds.cached.getOrFetch (holds.stored hash num)
  exact ⟨fetched.1, fetched.2, holds.stored⟩

theorem getTd_of_stored {num : Nat} (stored : readTd chain.db hash num = some td) :
    ∃ found, (chain.getTd hash num).1 = some found := by
  change ∃ found, (chain.caches.tds.getOrFetch hash (readTd chain.db hash num)).1 = some found
  simp only [RecentCache.getOrFetch_fst, stored]
  cases chain.caches.tds.entries.lookup hash with
  | none => exact ⟨td, rfl⟩
  | some found => exact ⟨found, rfl⟩

variable (caches : HeaderCaches) (db : ChainDb)

theorem tds_getHeaderByHash (hash : Hash) :
    (caches.getHeaderByHash db hash).2.tds = caches.tds := by
  have numbers : (caches.getBlockNumber db hash).2.tds = caches.tds := rfl
  simp only [HeaderCaches.getHeaderByHash]
  split
  · rename_i read
    rwa [read] at numbers
  · rename_i read
    rwa [read] at numbers

theorem tds_getHeaderByNumber (num : Nat) :
    (caches.getHeaderByNumber db num).2.tds = caches.tds := by
  simp only [HeaderCaches.getHeaderByNumber]
  split
  · rfl
  · rfl

theorem tds_newHeaderChain (genesisHeader : Header) :
    (newHeaderChain db genesisHeader caches).2.tds = caches.tds := by
  have kept := tds_getHeaderByHash caches db (readHeadBlockHash db)
  simp only [newHeaderChain]
  split_ifs with unset
  · rfl
  · split
    · rename_i read
      rwa [read] at kept
    · rename_i read
      rwa [read] at kept

theorem le_of_prefers (noTtd : setup.context.config.terminalTotalDifficulty = none)
    {current header : Header} {localTd externTd : Nat}
    (won : setup.prefers coin current header localTd externTd = true) : localTd ≤ externTd := by
  simp only [ChainSetup.prefers, noTtd, Option.any_none, Bool.false_eq_true, if_false] at won
  split_ifs at won with heavier equal
  all_goals omega

theorem eq_ok_of_map_eq_ok {load : Except Fault BlockChain}
    (mapped : (load.map .ok : Except Fault (Except ChainError BlockChain)) = .ok (.ok start)) :
    load = .ok start := by
  cases load with
  | error => cases mapped
  | ok =>
    cases mapped
    rfl

end

section

variable [Encoding] {relation : Hash → Nat → Prop}

theorem TdsHold.reorgNeeded (holds : TdsHold relation chain) (setup : ChainSetup) (coin : Bool)
    (current header : Header) :
    TdsHold relation (chain.reorgNeeded setup coin current header).2 := by
  have localRead := (holds.getTd current.hash current.numberU64).2
  have externRead := (localRead.getTd header.hash header.numberU64).2
  simp only [BlockChain.reorgNeeded]
  split
  · exact externRead
  · exact externRead

theorem TdsHold.loadLastState {after : BlockChain} (holds : TdsHold relation chain)
    (nonzero : readHeadBlockHash chain.db ≠ 0)
    (here : ∃ block, chain.getBlockByHash (readHeadBlockHash chain.db) = some block)
    (loaded : chain.loadLastState = .ok after) : TdsHold relation after := by
  rcases here with ⟨block, found⟩
  simp only [BlockChain.loadLastState, nonzero, if_false, found, Except.ok.injEq] at loaded
  subst loaded
  refine ⟨?_, holds.stored⟩
  apply And.right
  apply RecentCache.Holds.getOrFetch _ (holds.stored _ _)
  apply And.right
  apply RecentCache.Holds.getOrFetch _ (holds.stored _ _)
  have kept := tds_getHeaderByHash chain.caches chain.db (readHeadHeaderHash chain.db)
  split_ifs with unset
  · exact holds.cached
  · split
    · rename_i read
      rw [read] at kept
      exact kept ▸ holds.cached
    · rename_i read
      rw [read] at kept
      exact kept ▸ holds.cached

theorem HeadsAt.tdsHold {db : ChainDb} (heads : HeadsAt db hash block) {operationCache : Database}
    (opened : newBlockChain db operationCache = .ok (.ok start))
    (stored : ∀ hash num td, readTd db hash num = some td → relation hash td) :
    TdsHold relation start := by
  rcases first : HeaderCaches.getHeaderByNumber {} db 0 with ⟨_ | genesisHeader, caches⟩
  · simp [newBlockChain, first] at opened
  have empty : caches.tds = ({} : HeaderCaches).tds := by
    simpa [first] using tds_getHeaderByNumber {} db 0
  have cached : (newHeaderChain db genesisHeader caches).2.tds.Holds relation := by
    rw [tds_newHeaderChain, empty]
    intro _ mem
    cases mem
  simp only [newBlockChain, first, heads.canonical, heads.hash_ne_zero, heads.readBlock] at opened
  refine TdsHold.loadLastState ⟨cached, stored⟩ ?_ ⟨block, ?_⟩ (eq_ok_of_map_eq_ok opened)
  · simpa only [heads.headBlock] using heads.hash_ne_zero
  · simpa only [getBlockByHash, getBlock, heads.headBlock] using heads.readBlock

section

variable {setup : ChainSetup} {fuel : Nat} {coin : Bool} {block : Block} {chain after : BlockChain}
  {res : Except ChainError WriteStatus}

theorem verdict_eq_some {answer : Bool} (said : chain.verdict setup coin block = some answer) :
    ∃ localTd externTd,
      (chain.getTd chain.currentBlock.hash chain.currentBlock.numberU64).1 = some localTd ∧
      ((chain.getTd chain.currentBlock.hash chain.currentBlock.numberU64).2.getTd block.hash
        block.numberU64).1 = some externTd ∧
      setup.prefers coin chain.currentBlock.header block.header localTd externTd = answer := by
  simp only [verdict, reorgNeeded] at said
  split at said
  · rename_i localTd externTd localRead externRead
    exact ⟨localTd, externTd, localRead, externRead, Option.some.inj said⟩
  · cases said

theorem setHead_caches (ran : setHead setup fuel coin block chain = .ok (res, after)) :
    after.caches =
      (chain.reorgNeeded setup coin chain.currentBlock.header block.header).2.caches := by
  rcases needed : chain.reorgNeeded setup coin chain.currentBlock.header block.header with
    ⟨_ | _ | _, read⟩
  · simp only [setHead, needed, Except.ok.injEq, Prod.mk.injEq] at ran
    rw [← ran.2]
  · simp only [setHead, needed, Except.ok.injEq, Prod.mk.injEq] at ran
    rw [← ran.2]
  · simp only [setHead, needed] at ran
    split_ifs at ran with onHead
    · rw [(map_writeHeadBlock_eq_ok ran).2]
    · rcases reorganised : reorg fuel read.currentBlock block read with fault | ⟨_ | _, _⟩
      · rw [reorganised] at ran
        cases ran
      · rw [reorganised] at ran
        cases ran
        rcases reorg_cases reorganised with ⟨_, -, -, rfl⟩ | ⟨_, _, _, impossible, -⟩
        · rfl
        · cases impossible
      · rw [reorganised] at ran
        rw [(map_writeHeadBlock_eq_ok ran).2]
        rcases reorg_cases reorganised with ⟨_, -, impossible, -⟩ | ⟨_, _, _, -, -, rfl⟩
        · cases impossible
        · rfl

theorem HeadOutcome.readTd (outcome : HeadOutcome setup coin chain block res after)
    (hash : Hash) (num : Nat) : readTd after.db hash num = readTd chain.db hash num := by
  cases outcome with
  | failed | side => rfl
  | canon _ _ _ stale =>
    apply Store.lookup_commit_of_untouched
    intro _ mem same
    rcases mem_map.mp mem with ⟨key, listed, rfl⟩
    have canon := stale key listed
    rw [show key = .td num hash from same] at canon
    cases canon

theorem TdsHold.setHead (holds : TdsHold relation chain)
    (ran : setHead setup fuel coin block chain = .ok (res, after)) : TdsHold relation after := by
  refine ⟨?_, ?_⟩
  · rw [setHead_caches ran]
    exact (holds.reorgNeeded _ _ _ _).cached
  · intro hash num td found
    rw [(setHead_outcome ran).readTd] at found
    exact holds.stored hash num td found

end

def Weighs (tree : List Block) (root : Block) (hash : Hash) (td : Nat) : Prop :=
  ∃ path block, Branch tree root path block ∧ block.hash = hash ∧ totalDifficulty path = td

theorem weighs_unique {root : Block} {tree : List Block} (forked : ForkTree root tree)
    (first : root.number = 0) {other : Nat} (weighs : Weighs tree root hash td)
    (again : Weighs tree root hash other) : td = other := by
  rcases weighs with ⟨_, _, branch, rfl, rfl⟩
  rcases again with ⟨_, _, otherBranch, same, rfl⟩
  exact forked.totalDifficulty_unique first branch otherBranch same.symm

/-- The chain has the right total difficulty for every block of a list, and its head is one of
them. -/
structure Weighed (tree : List Block) (root : Block) (known : List Block) (chain : BlockChain) :
    Prop where
  tds : TdsHold (Weighs tree root) chain
  stored : ∀ block ∈ root :: known,
    ∃ td, Rawdb.readTd chain.db block.hash block.numberU64 = some td
  head : ∃ block ∈ root :: known,
    chain.currentBlock.hash = block.hash ∧ chain.currentBlock.numberU64 = block.numberU64

def headTd (chain : BlockChain) : Option Nat :=
  (chain.getTd chain.currentBlock.hash chain.currentBlock.numberU64).1

section

variable {tree known : List Block} {root block : Block} {chain after : BlockChain}
  (weighed : Weighed tree root known chain)
include weighed

theorem Weighed.headTd :
    ∃ td, chain.headTd = some td ∧ Weighs tree root chain.currentBlock.hash td := by
  rcases weighed.head with ⟨block, mem, hash, num⟩
  rcases weighed.stored block mem with ⟨td, stored⟩
  rw [← hash, ← num] at stored
  rcases getTd_of_stored stored with ⟨found, read⟩
  exact ⟨found, read, (weighed.tds.getTd _ _).1 found read⟩

theorem Weighed.store {receipts : List Receipt} (weighs : Weighs tree root block.hash td) :
    Weighed tree root (known ++ [block]) (chain.storeBlock block receipts td) where
  tds := by
    refine ⟨weighed.tds.cached, ?_⟩
    intro hash num other found
    by_cases same : num = block.numberU64 ∧ hash = block.hash
    · rcases same with ⟨rfl, rfl⟩
      simp only [storeBlock, readTd_blockBatch, Option.some.injEq] at found
      exact found ▸ weighs
    · simp only [storeBlock, readTd_blockBatch_of_ne same] at found
      exact weighed.tds.stored hash num other found
  stored := by
    intro other mem
    by_cases same : other.numberU64 = block.numberU64 ∧ other.hash = block.hash
    · refine ⟨td, ?_⟩
      simp [same.1, same.2, storeBlock, readTd_blockBatch]
    have old : other ∈ root :: known := by
      rcases mem_append.mp (cons_append ▸ mem) with old | new
      · exact old
      · obtain rfl : other = block := by simpa using new
        exact absurd ⟨rfl, rfl⟩ same
    simpa only [storeBlock, readTd_blockBatch_of_ne same] using weighed.stored other old
  head := by
    rcases weighed.head with ⟨head, mem, same⟩
    exact ⟨head, cons_append ▸ mem_append_left [block] mem, same⟩

theorem Weighed.setHead {fuel : Nat} {res : Except ChainError WriteStatus}
    (forked : ForkTree root tree) (first : root.number = 0)
    (noTtd : setup.context.config.terminalTotalDifficulty = none) (mem : block ∈ known)
    (ran : setHead setup fuel coin block chain = .ok (res, after)) :
    Weighed tree root known after ∧ ∀ old new, Weighs tree root chain.currentBlock.hash old →
      Weighs tree root after.currentBlock.hash new → old ≤ new := by
  have tds := weighed.tds.setHead ran
  have outcome := setHead_outcome ran
  have stored : ∀ block ∈ root :: known,
      ∃ td, readTd after.db block.hash block.numberU64 = some td := by
    simpa only [outcome.readTd] using weighed.stored
  have same : ∀ old new, Weighs tree root chain.currentBlock.hash old →
      Weighs tree root chain.currentBlock.hash new → old ≤ new := by
    intro old new weighs again
    exact (weighs_unique forked first weighs again).le
  cases outcome with
  | failed | side => exact ⟨⟨tds, stored, weighed.head⟩, same⟩
  | canon won _ _ _ =>
    refine ⟨⟨tds, stored, block, mem_cons_of_mem _ mem, rfl, rfl⟩, ?_⟩
    intro old new oldWeighs newWeighs
    rcases verdict_eq_some won with ⟨localTd, externTd, localRead, externRead, preferred⟩
    have headRead := weighed.tds.getTd chain.currentBlock.hash chain.currentBlock.numberU64
    have localWeighs := headRead.1 localTd localRead
    have externWeighs := (headRead.2.getTd _ _).1 externTd externRead
    calc old = localTd := weighs_unique forked first oldWeighs localWeighs
      _ ≤ externTd := le_of_prefers noTtd preferred
      _ = new := weighs_unique forked first externWeighs newWeighs

end

variable {genesis : Genesis} {root : Hash} {db : ChainDb} {operationCache : Database}
  {start : BlockChain}

theorem hash_ne_zero_of_opened (committed : genesis.commit root = some db)
    (opened : newBlockChain db operationCache = .ok (.ok start)) :
    (genesis.toBlock root).hash ≠ 0 := by
  intro zero
  have unset : readCanonicalHash db 0 = 0 := by
    simp [readCanonicalHash, lookup_canonical_of_commit committed, zero]
  simp [newBlockChain, HeaderCaches.getHeaderByNumber, unset] at opened

theorem readTd_of_commit (committed : genesis.commit root = some db) (hash : Hash) (num : Nat) :
    readTd db hash num =
      if num = (genesis.toBlock root).numberU64 ∧ hash = (genesis.toBlock root).hash then
        some (genesis.toBlock root).header.difficulty
      else none := by
  have read : readTd db hash num =
      readTd (Store.empty.commit (blockBatch (genesis.toBlock root) []
        (genesis.toBlock root).header.difficulty)) hash num :=
    lookup_block_of_commit committed rfl
  split_ifs with same
  · rw [read, same.1, same.2, readTd_blockBatch]
  · simp only [read, readTd_blockBatch_of_ne same]
    rfl

theorem weighed_of_opensAt (opened : OpensAt genesis root operationCache start)
    (tree : List Block) : Weighed tree (genesis.toBlock root) [] start := by
  rcases opened with ⟨_, committed, built⟩
  have heads := headsAt_of_commit committed (hash_ne_zero_of_opened committed built)
  have tds : TdsHold (Weighs tree (genesis.toBlock root)) start := by
    apply heads.tdsHold built
    intro _ _ _ found
    rw [readTd_of_commit committed] at found
    split_ifs at found with same
    cases found
    exact ⟨_, _, .root, same.2.symm, by simp [totalDifficulty]⟩
  rcases heads.opens operationCache with ⟨_, shape⟩
  rw [shape] at built
  cases built
  refine ⟨tds, ?_, ?_⟩
  · intro block mem
    obtain rfl : block = genesis.toBlock root := by simpa using mem
    exact ⟨_, by rw [readTd_of_commit committed, if_pos ⟨rfl, rfl⟩]⟩
  · exact ⟨_, mem_cons_self, Encoding.headerHash_stored _, rfl⟩

end

variable [Crypto] [Encoding]

def CallStep (setup : ChainSetup) (before : BlockChain) (write : BlockWrite)
    (after : BlockChain) : Prop :=
  ∃ fuel result, writeBlockAndSetHead setup fuel write.coin write.block write.receipts write.state
    before = .ok (result, after)

abbrev CallRun (setup : ChainSetup) : BlockChain → List BlockWrite → BlockChain → Prop :=
  Run (CallStep setup)

variable {setup : ChainSetup} {block : Block} {receipts : List Receipt} {state : OperationDB}
  {chain before after start final : BlockChain} {root : Block} {tree known : List Block}

theorem writeBlockWithState_of_known {ptd : Nat}
    (known : (chain.getTd block.parentHash block.parentNumber).1 = some ptd)
    (ran : writeBlockWithState setup block receipts state chain = .ok (res, after)) :
    ∃ operationCache, after =
      { (chain.getTd block.parentHash block.parentNumber).2.storeBlock block receipts
          (block.header.difficulty + ptd) with operationCache := operationCache } := by
  rcases read : chain.getTd block.parentHash block.parentNumber with ⟨_, _⟩
  rw [read] at known
  cases known
  simp only [writeBlockWithState, read] at ran
  split at ran
  · cases ran
  · cases ran
    exact ⟨_, rfl⟩
  · cases ran
    exact ⟨_, rfl⟩

theorem Weighed.writeBlockWithState (weighed : Weighed tree root known chain)
    (forked : ForkTree root tree) (listed : ∀ other ∈ known, other ∈ tree) (mem : block ∈ tree)
    (linked : ∃ parent ∈ root :: known,
      block.parentHash = parent.hash ∧ block.number = parent.number + 1)
    (ran : writeBlockWithState setup block receipts state chain = .ok (res, after)) :
    Weighed tree root (known ++ [block]) after ∧ after.currentBlock = chain.currentBlock := by
  rcases linked with ⟨parent, stored, hash, next⟩
  rcases weighed.stored parent stored with ⟨_, here⟩
  rw [← hash, ← parentNumber_of_next next] at here
  rcases getTd_of_stored here with ⟨ptd, read⟩
  have parentRead := weighed.tds.getTd block.parentHash block.parentNumber
  rcases parentRead.1 ptd read with ⟨path, twin, branch, same, rfl⟩
  -- The branch may lead to another block with the hash of the parent.
  have twinNumber : parent.number = twin.number := by
    have parentListed : parent ∈ root :: tree := by
      rcases mem_cons.mp stored with rfl | earlier
      · exact mem_cons_self
      · exact mem_cons_of_mem _ (listed parent earlier)
    exact (link_eq_of_stored_eq
      (forked.identified _ parentListed _ branch.mem (hash.symm.trans same.symm))).1
  have weighs : Weighs tree root block.hash (block.header.difficulty + totalDifficulty path) :=
    ⟨block :: path, block, .child branch mem same.symm (by omega), rfl, rfl⟩
  have readChain : Weighed tree root known (chain.getTd block.parentHash block.parentNumber).2 :=
    ⟨parentRead.2, weighed.stored, weighed.head⟩
  have wrote : Weighed tree root (known ++ [block])
      ((chain.getTd block.parentHash block.parentNumber).2.storeBlock block receipts
        (block.header.difficulty + totalDifficulty path)) :=
    readChain.store weighs
  rcases writeBlockWithState_of_known read ran with ⟨_, rfl⟩
  exact ⟨⟨⟨wrote.tds.cached, wrote.tds.stored⟩, wrote.stored, wrote.head⟩, rfl⟩

section

variable (forked : ForkTree root tree) (first : root.number = 0)
  (noTtd : setup.context.config.terminalTotalDifficulty = none)
include forked first noTtd

theorem Weighed.call {write : BlockWrite} (weighed : Weighed tree root known before)
    (listed : ∀ other ∈ known, other ∈ tree) (mem : write.block ∈ tree)
    (linked : ∃ parent ∈ root :: known,
      write.block.parentHash = parent.hash ∧ write.block.number = parent.number + 1)
    (step : CallStep setup before write after) :
    Weighed tree root (known ++ [write.block]) after ∧
      ∃ old new, before.headTd = some old ∧ after.headTd = some new ∧ old ≤ new := by
  rcases weighed.headTd with ⟨old, oldRead, oldWeighs⟩
  suffices moved : Weighed tree root (known ++ [write.block]) after ∧
      ∀ old new, Weighs tree root before.currentBlock.hash old →
        Weighs tree root after.currentBlock.hash new → old ≤ new by
    rcases moved.1.headTd with ⟨new, newRead, newWeighs⟩
    exact ⟨moved.1, old, new, oldRead, newRead, moved.2 old new oldWeighs newWeighs⟩
  rcases step with ⟨_, _, ran⟩
  rcases wrote : BlockChain.writeBlockWithState setup write.block write.receipts write.state
    before with fault | ⟨error | _, stored⟩
  · simp only [writeBlockAndSetHead, wrote, reduceCtorEq] at ran
  · simp only [writeBlockAndSetHead, wrote, Except.ok.injEq] at ran
    rcases ran with ⟨-, rfl⟩
    rcases weighed.writeBlockWithState forked listed mem linked wrote with ⟨kept, head⟩
    refine ⟨kept, ?_⟩
    intro old new weighs again
    rw [head] at again
    exact (weighs_unique forked first weighs again).le
  · simp only [writeBlockAndSetHead, wrote] at ran
    rcases weighed.writeBlockWithState forked listed mem linked wrote with ⟨kept, head⟩
    rw [← head]
    exact kept.setHead forked first noTtd (by simp) ran

theorem Weighed.run {writes : List BlockWrite} (weighed : Weighed tree root [] start)
    (run : CallRun setup start writes final) (within : writes.map (·.block) <+: tree) :
    Weighed tree root (writes.map (·.block)) final := by
  refine run.invariant (fun front chain => Weighed tree root (front.map (·.block)) chain) weighed ?_
  intro front write chain _ shorter _ step earlier
  have taken : front.map (·.block) ++ [write.block] <+: tree := by
    simpa using (shorter.map (·.block)).trans within
  have listed : ∀ other ∈ front.map (·.block), other ∈ tree := by
    intro other mem
    exact taken.subset (mem_append_left _ mem)
  rw [map_append]
  exact (earlier.call forked first noTtd listed (taken.subset (by simp))
    (forked.parentsFirst _ _ taken) step).1

end

/-- Along every run over a fork tree, the total difficulty that is stored for a block is the sum
of the difficulties of its branch, and that of the head never falls. -/
theorem totalDifficulty_along_run {genesis : Genesis} {stateRoot : Hash}
    {operationCache : Database} {writes : List BlockWrite}
    (opened : OpensAt genesis stateRoot operationCache start)
    (noTtd : setup.context.config.terminalTotalDifficulty = none)
    (forked : ForkTree (genesis.toBlock stateRoot) (writes.map (·.block)))
    (run : CallRun setup start writes final) :
    (∀ write ∈ writes,
        (∃ path, Branch (writes.map (·.block)) (genesis.toBlock stateRoot) path write.block) ∧
        ∀ path, Branch (writes.map (·.block)) (genesis.toBlock stateRoot) path write.block →
          Rawdb.readTd final.db write.block.hash write.block.numberU64 =
            some (totalDifficulty path)) ∧
      ∀ front write before after, front ++ [write] <+: writes → CallRun setup start front before →
        CallStep setup before write after →
        ∃ old new, before.headTd = some old ∧ after.headTd = some new ∧ old ≤ new := by
  have first : (genesis.toBlock stateRoot).number = 0 := by
    rcases opened with ⟨db, committed, -⟩
    exact number_of_commit committed
  have initial := weighed_of_opensAt opened (writes.map (·.block))
  refine ⟨?_, ?_⟩
  · intro write mem
    have listed : write.block ∈ genesis.toBlock stateRoot :: writes.map (·.block) :=
      List.mem_cons_of_mem _ (List.mem_map_of_mem mem)
    refine ⟨forked.exists_branch listed, ?_⟩
    intro path branch
    have weighed := initial.run forked first noTtd run (List.prefix_refl _)
    rcases weighed.stored _ listed with ⟨_, stored⟩
    rw [stored, weighs_unique forked first (weighed.tds.stored _ _ _ stored)
      ⟨path, write.block, branch, rfl, rfl⟩]
  · intro front write before after shorter reached step
    have taken : front.map (·.block) ++ [write.block] <+: writes.map (·.block) := by
      simpa using shorter.map (·.block)
    have weighed := initial.run forked first noTtd reached ((List.prefix_append _ _).trans taken)
    refine (weighed.call forked first noTtd ?_ (taken.subset (by simp))
      (forked.parentsFirst _ _ taken) step).2
    intro _ mem
    exact taken.subset (List.mem_append_left _ mem)

end BlockChain

attribute [local instance] sampleEncoding emptyStateCrypto

theorem sample_forkTree :
    ForkTree (sampleGenesis.toBlock emptyRoot) ([sampleWrite 1 131072].map (·.block)) where
  identified := by decide +kernel
  parentsFirst := by
    intro _ block shorter
    rcases eq_of_shorter_singleton shorter with ⟨rfl, rfl⟩
    exact ⟨_, mem_cons_self, by decide +kernel⟩

theorem sample_totalDifficulty :
    ∃ start final, BlockChain.OpensAt sampleGenesis emptyRoot emptyDatabase start ∧
      BlockChain.CallRun fakeSetup start [sampleWrite 1 131072] final ∧
      Rawdb.readTd final.db (sampleWrite 1 131072).block.hash 1 = some 262144 := by
  rcases sample_extension with ⟨start, final, opened, run, -⟩
  have opensAt := opensAt_of_sampleStart opened
  have extended : BlockChain.WriteRun fakeSetup 4 start ([] ++ [sampleWrite 1 131072]) final := run
  rcases extended.snoc_inv with ⟨_, reached, status, ran⟩
  cases reached.nil_inv
  have called : BlockChain.CallRun fakeSetup start [sampleWrite 1 131072] final :=
    .snoc .nil ⟨4, .ok status, ran⟩
  refine ⟨start, final, opensAt, called, ?_⟩
  have stored := (BlockChain.totalDifficulty_along_run opensAt rfl sample_forkTree called).1
    (sampleWrite 1 131072) List.mem_cons_self
  exact stored.2 [_, _] (.child .root List.mem_cons_self (by decide +kernel) rfl)

end Octopus
