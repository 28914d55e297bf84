import Octopus.Blockchain.BlockChain

/-!
# Opening and closing a chain

The genesis block, `NewBlockChain` with `loadLastState`, and `Stop`.
-/

namespace Octopus

open Library Rawdb Store

variable {db : ChainDb} {hash : Hash} {block : Block} {num : Nat}

/-- `genesis.Genesis`; of the allocation only the root of its state enters here. -/
structure Genesis where
  config : Option ChainConfig := none
  nonce : BitVec 64 := 0
  timestamp : Nat := 0
  gasLimit : Nat := 0
  difficulty : Option Nat := none
  mixhash : Hash := 0
  coinbase : Address := 0
  number : Nat := 0
  gasUsed : Nat := 0
  parentHash : Hash := 0
  baseFee : Option Nat := none

namespace Genesis

def header (genesis : Genesis) (root : Hash) : Header where
  parentHash := genesis.parentHash
  coinbase := genesis.coinbase
  root := root
  difficulty := genesis.difficulty.getD (if genesis.mixhash = 0 then 131072 else 0)
  number := genesis.number
  gasLimit := if genesis.gasLimit = 0 then 4712388 else genesis.gasLimit
  gasUsed := genesis.gasUsed
  time := genesis.timestamp
  mixDigest := genesis.mixhash
  nonce := genesis.nonce
  baseFee :=
    if genesis.config.any fun config => isForked config.londonBlock 0 then
      some (genesis.baseFee.getD 1000000000)
    else genesis.baseFee

variable [Encoding]

def toBlock (genesis : Genesis) (root : Hash) : Block :=
  newBlock (genesis.header root) [] []

def indexBatch (hash : Hash) (number : Nat) : DbBatch :=
  writeCanonicalHash hash number ++ writeHeadBlockHash hash ++
    writeHeadHeaderHash hash

def batch (block : Block) : DbBatch :=
  blockBatch block [] block.header.difficulty ++ indexBatch block.hash block.numberU64

/-- `Commit`, on a database of its own; a genesis block must have the number
zero. -/
def commit (genesis : Genesis) (root : Hash) : Option ChainDb :=
  if genesis.number = 0 then some (Store.empty.commit (batch (genesis.toBlock root))) else none

end Genesis

namespace BlockChain

section

variable [Encoding]

def resetWithGenesisBlock (chain : BlockChain) (genesis : Block) : Except Fault BlockChain := do
  let stored := chain.db.commit
    (writeTd genesis.hash genesis.numberU64 genesis.header.difficulty ++
      writeBlock genesis)
  let chain ← { chain with db := stored }.writeHeadBlock genesis
  return { chain with
    genesisBlock := genesis, currentBlock := genesis, currentHeader := genesis.header }

def loadLastState (chain : BlockChain) : Except Fault BlockChain :=
  let head := readHeadBlockHash chain.db
  if head = 0 then chain.resetWithGenesisBlock chain.genesisBlock
  else
    match chain.getBlockByHash head with
    | none => chain.resetWithGenesisBlock chain.genesisBlock
    | some currentBlock =>
      let headHeader := readHeadHeaderHash chain.db
      let (currentHeader, caches) :=
        if headHeader = 0 then (currentBlock.header, chain.caches)
        else
          match chain.caches.getHeaderByHash chain.db headHeader with
          | (some header, caches) => (header, caches)
          | (none, caches) => (currentBlock.header, caches)
      -- The total difficulties are read for the log, which fills their cache.
      let (_, caches) := caches.getTd chain.db currentHeader.hash currentHeader.numberU64
      let (_, caches) := caches.getTd chain.db currentBlock.hash currentBlock.numberU64
      .ok { chain with
        caches := caches, currentBlock := currentBlock, currentHeader := currentHeader }

def newHeaderChain (db : ChainDb) (genesisHeader : Header) (caches : HeaderCaches) :
    Header × HeaderCaches :=
  let head := readHeadBlockHash db
  if head = 0 then (genesisHeader, caches)
  else
    match caches.getHeaderByHash db head with
    | (some header, caches) => (header, caches)
    | (none, caches) => (genesisHeader, caches)

/-- `NewBlockChain`.  `loadLastState` replaces the nil current block without reading it. -/
def newBlockChain (db : ChainDb) (operationCache : Database) :
    Except Fault (Except ChainError BlockChain) :=
  match HeaderCaches.getHeaderByNumber {} db 0 with
  | (none, _) => .ok (.error .genesisHeaderMissing)
  | (some genesisHeader, caches) =>
    let (currentHeader, caches) := newHeaderChain db genesisHeader caches
    let hash := readCanonicalHash db 0
    match if hash = 0 then none else readBlock db hash 0 with
    | none => .ok (.error .genesisBlockMissing)
    | some genesisBlock =>
      ({ db := db, operationCache := operationCache, caches := caches
         genesisBlock := genesisBlock, currentBlock := genesisBlock
         currentHeader := currentHeader } : BlockChain).loadLastState.map .ok

/-- The first part of `Stop`: the states of three recent blocks, found by number, are written. -/
def commitRecent (chain : BlockChain) : Except Fault Unit :=
  [0, 1, 127].forM fun offset =>
    if offset < chain.currentBlock.numberU64 then
      match chain.getBlockByNumber (chain.currentBlock.numberU64 - offset) with
      | none => .error nilDereference
      | some _ => .ok ()
    else .ok ()

/-- `Stop`.  The queue `triegc` is never made, so that asking whether it is empty
dereferences nil. -/
def stop (setup : ChainSetup) (chain : BlockChain) : Except Fault Unit :=
  if setup.trieDirtyDisabled then .ok ()
  else do
    chain.commitRecent
    .error nilDereference

structure HeadsAt (db : ChainDb) (hash : Hash) (block : Block) : Prop where
  hash_ne_zero : hash ≠ 0
  canonical : readCanonicalHash db 0 = hash
  headBlock : readHeadBlockHash db = hash
  headHeader : readHeadHeaderHash db = hash
  number : readHeaderNumber db hash = some 0
  readBlock : readBlock db hash 0 = some block

end

theorem readHeader_of_readBlock (found : readBlock db hash num = some block) :
    readHeader db hash num = some block.header := by
  rw [readBlock] at found
  rcases header : readHeader db hash num with _ | stored
  · rw [header] at found
    cases found
  rcases body : readBody db hash num with _ | rest
  · rw [header, body] at found
    cases found
  · rw [header, body] at found
    cases found
    rfl

theorem getHeaderByHash_of_cached {caches : HeaderCaches} {header : Header}
    (cached : caches.headers.entries.lookup hash = some header)
    (known : readHeaderNumber db hash = some num) :
    ∃ after : HeaderCaches, caches.getHeaderByHash db hash = (some header, after) ∧
      after.headers.entries.lookup hash = some header := by
  have numbered : (caches.getBlockNumber db hash).1 ≠ none := by
    change (caches.numbers.getOrFetch hash (readHeaderNumber db hash)).1 ≠ none
    rw [RecentCache.getOrFetch_fst, known]
    cases caches.numbers.entries.lookup hash with
    | none | some => simp
  rcases read : caches.getBlockNumber db hash with ⟨_ | found, numbers⟩
  · rw [read] at numbered
    exact absurd rfl numbered
  have same : numbers.headers = caches.headers := by
    have kept : (caches.getBlockNumber db hash).2.headers = caches.headers := rfl
    rwa [read] at kept
  rw [← same] at cached
  rcases RecentCache.getOrFetch_of_cached cached (readHeader db hash found) with ⟨answer, again⟩
  refine ⟨(numbers.getHeader db hash found).2, ?_, again⟩
  simp only [HeaderCaches.getHeaderByHash, read]
  exact Prod.ext answer rfl

variable [Encoding]

theorem HeadsAt.opens (heads : HeadsAt db hash block) (operationCache : Database) :
    ∃ caches, newBlockChain db operationCache =
      .ok (.ok { db := db, operationCache := operationCache, caches := caches
                 genesisBlock := block, currentBlock := block
                 currentHeader := block.header }) := by
  have stored := readHeader_of_readBlock heads.readBlock
  -- The first read of the genesis header puts it in the cache.
  have first : ∃ caches : HeaderCaches,
      HeaderCaches.getHeaderByNumber {} db 0 = (some block.header, caches) ∧
        caches.headers.entries.lookup hash = some block.header := by
    have answer : ((({} : HeaderCaches).headers).getOrFetch hash (readHeader db hash 0)).1 =
        some block.header := by
      rw [RecentCache.getOrFetch_fst, stored]
      rfl
    refine ⟨(HeaderCaches.getHeader {} db hash 0).2, ?_,
      RecentCache.lookup_of_getOrFetch (by decide) answer⟩
    simp only [HeaderCaches.getHeaderByNumber, heads.canonical, heads.hash_ne_zero]
    exact Prod.ext answer rfl
  rcases first with ⟨genesisCaches, genesisRead, genesisCached⟩
  rcases getHeaderByHash_of_cached genesisCached heads.number with
    ⟨headCaches, headRead, headCached⟩
  rcases getHeaderByHash_of_cached headCached heads.number with ⟨_, lastRead, -⟩
  have opened : newHeaderChain db block.header genesisCaches = (block.header, headCaches) := by
    simp only [newHeaderChain, heads.headBlock, heads.hash_ne_zero, if_false, headRead]
  simp only [newBlockChain, genesisRead, opened, heads.canonical, heads.hash_ne_zero,
    heads.readBlock, loadLastState, heads.headBlock, heads.headHeader, getBlockByHash, getBlock,
    lastRead]
  exact ⟨_, rfl⟩

def OpensAt (genesis : Genesis) (root : Hash) (operationCache : Database) (start : BlockChain) :
    Prop :=
  ∃ db, genesis.commit root = some db ∧ newBlockChain db operationCache = .ok (.ok start)

variable {genesis : Genesis} {root : Hash} {db : ChainDb}
  (committed : genesis.commit root = some db)
include committed

theorem number_of_commit : genesis.number = 0 := by
  by_contra positive
  simp only [Genesis.commit, positive, if_false, reduceCtorEq] at committed

theorem numberU64_of_commit : (genesis.toBlock root).numberU64 = 0 := by
  have zero := number_of_commit committed
  simp [Block.numberU64, Header.numberU64, Genesis.toBlock, newBlock, Genesis.header, zero]

theorem eq_of_commit :
    db = (Store.empty.commit (blockBatch (genesis.toBlock root) []
      (genesis.toBlock root).header.difficulty)).commit
        (Genesis.indexBatch (genesis.toBlock root).hash 0) := by
  have first := numberU64_of_commit committed
  simp only [Genesis.commit, number_of_commit committed, if_true, Option.some.injEq] at committed
  rw [← committed, Genesis.batch, commit_append, first]

theorem lookup_canonical_of_commit (num : Nat) :
    db.lookup (.canonical num) =
      if num = 0 then some (genesis.toBlock root).hash else none := by
  rw [eq_of_commit committed]
  simp only [Genesis.indexBatch, writeCanonicalHash, writeHeadBlockHash,
    writeHeadHeaderHash, List.cons_append, List.nil_append, commit_cons, commit_nil]
  rw [lookup_apply_of_ne _ (by simp [Write.key]), lookup_apply_of_ne _ (by simp [Write.key])]
  by_cases first : num = 0
  · subst first
    rw [lookup_put_self, if_pos rfl]
  · rw [lookup_apply_of_ne _ (by simpa [Write.key] using Ne.symm first),
      lookup_index_blockBatch rfl, if_neg first]
    rfl

theorem lookup_txLookup_of_commit (hash : Hash) : db.lookup (.txLookup hash) = none := by
  rw [eq_of_commit committed, lookup_commit_of_untouched]
  · rfl
  · simp [Genesis.indexBatch, writeCanonicalHash, writeHeadBlockHash,
      writeHeadHeaderHash, Write.key]

theorem lookup_block_of_commit {key : DbKey} (block : key.isIndex = false) :
    db.lookup key = (Store.empty.commit (blockBatch (genesis.toBlock root) []
      (genesis.toBlock root).header.difficulty)).lookup key := by
  rw [eq_of_commit committed, lookup_commit_of_untouched]
  intro _ mem same
  simp only [Genesis.indexBatch, writeCanonicalHash, writeHeadBlockHash,
    writeHeadHeaderHash, List.cons_append, List.nil_append, List.mem_cons,
    List.not_mem_nil, or_false] at mem
  rcases mem with rfl | rfl | rfl
  all_goals
    rw [← same] at block
    cases block

theorem headsAt_of_commit (nonzero : (genesis.toBlock root).hash ≠ 0) :
    HeadsAt db (genesis.toBlock root).hash (genesis.toBlock root).stored where
  hash_ne_zero := nonzero
  canonical := by
    rw [readCanonicalHash, lookup_canonical_of_commit committed, if_pos rfl]
    rfl
  headBlock := by
    have wrote : db.lookup .headBlock = some (genesis.toBlock root).hash := by
      rw [eq_of_commit committed]
      refine lookup_commit_of_put_last (writeCanonicalHash _ 0) (writeHeadHeaderHash _) ?_
      simp [writeHeadHeaderHash, Write.key]
    rw [readHeadBlockHash, wrote]
    rfl
  headHeader := by
    have wrote : db.lookup .headHeader = some (genesis.toBlock root).hash := by
      rw [eq_of_commit committed]
      refine lookup_commit_of_put_last (writeCanonicalHash _ 0 ++ writeHeadBlockHash _) [] ?_
      simp
    rw [readHeadHeaderHash, wrote]
    rfl
  number := by
    rw [readHeaderNumber, lookup_block_of_commit committed rfl, ← readHeaderNumber,
      readHeaderNumber_blockBatch, numberU64_of_commit committed]
  readBlock := by
    rw [readBlock, readHeader, readBody, lookup_block_of_commit committed rfl,
      lookup_block_of_commit committed rfl, ← readHeader, ← readBody,
      ← numberU64_of_commit committed]
    exact readBlock_blockBatch

end BlockChain

def sampleGenesis : Genesis := {}

def sampleGenesisHash : Hash :=
  0xd11d933bb2d1095d0cfcf62319082bc9b4525c0f0e1b52ce446bc400961e2da9

def sampleChild (number difficulty : Nat) : Header where
  parentHash := sampleGenesisHash
  root := emptyRoot
  txHash := emptyRoot
  receiptHash := emptyRoot
  difficulty := difficulty
  number := number
  gasLimit := 4712388
  time := 10

/-- The genesis block, a child of number one, and one of number and difficulty zero. -/
def sampleHeaderHash (header : Header) : Hash :=
  if header = { sampleGenesis.header emptyRoot with
      txHash := emptyRoot, receiptHash := emptyRoot, baseFee := some 0 } then sampleGenesisHash
  else if header = (sampleChild 1 131072).stored then
    0x4ec5215393355e6669b9b5b46e64f5f6b6d3c8a3168903d2ad846d7f57c1cd3b
  else if header = (sampleChild 0 0).stored then
    0xea6a2493d3c3da24ae68bd5d6cd62bf42f97f4e1d7e29111fb654dafc1402722
  else 0

@[reducible]
def sampleEncoding : Encoding where
  headerHash header := sampleHeaderHash header.stored
  headerHash_stored _ := rfl
  txHash _ := 0xf278d915484f4785568c256eca7696b3d0a4cfb9c22ba62bce3e3b96d596597f
  txRoot _ := 0
  receiptRoot _ := 0
  sender _ := none

@[reducible]
def emptyStateCrypto : Crypto :=
  { sampleCrypto with accountRoot := fun _ => emptyRoot }

def fakeSetup : ChainSetup where
  context := ⟨{ chainID := some 666 }, fun _ _ _ => 0, false⟩
  engine := { powMode := .fullFake, verifyHeader := fun _ _ => false }
  trieDirtyDisabled := true

def sampleStart : Option BlockChain :=
  letI := sampleEncoding
  match sampleGenesis.commit emptyRoot with
  | none => none
  | some db =>
    match BlockChain.newBlockChain db emptyDatabase with
    | .ok (.ok start) => some start
    | _ => none

theorem opensAt_of_sampleStart {start : BlockChain} (opened : sampleStart = some start) :
    letI := sampleEncoding
    BlockChain.OpensAt sampleGenesis emptyRoot emptyDatabase start := by
  simp only [sampleStart] at opened
  split at opened
  · cases opened
  rename_i db committed
  split at opened
  · rename_i found built
    cases opened
    exact ⟨db, committed, built⟩
  · cases opened

end Octopus
