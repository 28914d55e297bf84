import Octopus.Consensus.Octell
import Octopus.Entity.Rawdb

/-!
# The block chain

The head of the chain in memory, the caches of the header chain, and `reorg`.  The caches
are keyed by hash alone.  `writeHeadBlock` drops the batch that it fills, and
`GetBlockByHash` looks for every block under the number zero.
-/

namespace Octopus

open Library Rawdb

variable {fuel : Nat} {oldBlock newBlock : Block}

inductive ChainError where
  | missingState (root : Hash)
  | unknownAncestor
  | commit (error : CommitError)
  | missingTd
  | invalidOldChain
  | invalidNewChain
  | genesisHeaderMissing
  | genesisBlockMissing
  deriving DecidableEq

inductive WriteStatus where
  | canon
  | side
  deriving DecidableEq

/-- What a chain is opened with.  `preserve` is the function that the miner may
give to the fork choice. -/
structure ChainSetup where
  context : ChainContext
  engine : Octell
  preserve : Option (Header → Bool) := none
  trieDirtyDisabled : Bool := false

structure HeaderCaches where
  headers : RecentCache Hash Header := { limit := 512 }
  tds : RecentCache Hash Nat := { limit := 1024 }
  numbers : RecentCache Hash Nat := { limit := 2048 }

/-- `BlockChain`, with the fields of its `HeaderChain` that change. -/
structure BlockChain where
  db : ChainDb
  operationCache : Database
  caches : HeaderCaches
  genesisBlock : Block
  currentBlock : Block
  currentHeader : Header

namespace HeaderCaches

def getHeader (caches : HeaderCaches) (db : ChainDb) (hash : Hash) (number : Nat) :
    Option Header × HeaderCaches :=
  let (header, headers) := caches.headers.getOrFetch hash (readHeader db hash number)
  (header, { caches with headers := headers })

def getTd (caches : HeaderCaches) (db : ChainDb) (hash : Hash) (number : Nat) :
    Option Nat × HeaderCaches :=
  let (td, tds) := caches.tds.getOrFetch hash (readTd db hash number)
  (td, { caches with tds := tds })

def getBlockNumber (caches : HeaderCaches) (db : ChainDb) (hash : Hash) :
    Option Nat × HeaderCaches :=
  let (number, numbers) := caches.numbers.getOrFetch hash (readHeaderNumber db hash)
  (number, { caches with numbers := numbers })

def getHeaderByNumber (caches : HeaderCaches) (db : ChainDb) (number : Nat) :
    Option Header × HeaderCaches :=
  let hash := readCanonicalHash db number
  if hash = 0 then (none, caches) else caches.getHeader db hash number

def getHeaderByHash (caches : HeaderCaches) (db : ChainDb) (hash : Hash) :
    Option Header × HeaderCaches :=
  match caches.getBlockNumber db hash with
  | (none, caches) => (none, caches)
  | (some number, caches) => caches.getHeader db hash number

end HeaderCaches

namespace BlockChain

def getHeader (chain : BlockChain) (hash : Hash) (number : Nat) : Option Header × BlockChain :=
  let (header, caches) := chain.caches.getHeader chain.db hash number
  (header, { chain with caches := caches })

def getTd (chain : BlockChain) (hash : Hash) (number : Nat) : Option Nat × BlockChain :=
  let (td, caches) := chain.caches.getTd chain.db hash number
  (td, { chain with caches := caches })

theorem getTd_caches (chain : BlockChain) (hash : Hash) (number : Nat) :
    ∃ caches, (chain.getTd hash number).2 = { chain with caches := caches } :=
  ⟨_, rfl⟩

theorem getHeader_caches (chain : BlockChain) (hash : Hash) (number : Nat) :
    ∃ caches, (chain.getHeader hash number).2 = { chain with caches := caches } :=
  ⟨_, rfl⟩

/-- `GetBlock`; its cache is commented out. -/
def getBlock (chain : BlockChain) (hash : Hash) (number : Nat) : Option Block :=
  readBlock chain.db hash number

/-- `GetBlockByHash`: the number stays zero, its lookup is commented out. -/
def getBlockByHash (chain : BlockChain) (hash : Hash) : Option Block :=
  chain.getBlock hash 0

def getBlockByNumber (chain : BlockChain) (number : Nat) : Option Block :=
  let hash := readCanonicalHash chain.db number
  if hash = 0 then none else chain.getBlock hash number

end BlockChain

namespace ChainSetup

def preserves (setup : ChainSetup) (header : Header) : Bool :=
  match setup.preserve with
  | none => false
  | some preserve => preserve header

/-- `ReorgNeeded` on two known total difficulties; the coin decides between equals. -/
def prefers (setup : ChainSetup) (coin : Bool) (current header : Header)
    (localTd externTd : Nat) : Bool :=
  if setup.context.config.terminalTotalDifficulty.any (· ≤ externTd) then true
  else if localTd < externTd then true
  else if externTd = localTd then
    if header.numberU64 < current.numberU64 then true
    else if header.numberU64 = current.numberU64 then
      !setup.preserves current && (setup.preserves header || coin)
    else false
  else false

end ChainSetup

def hashDifference (first second : List Hash) : List Hash :=
  first.filter fun hash => hash ∉ second

namespace BlockChain

/-- Where two branches part: the common block, the new branch above it, newest first, and the
transactions of the old one. -/
structure Fork where
  common : Block
  newChain : List Block := []
  deletedTxs : List Hash := []

def Fork.lastKept (fork : Fork) : Nat :=
  match fork.newChain with
  | _ :: second :: _ => second.numberU64
  | _ => fork.common.numberU64

def Fork.staleKeys (fork : Fork) (addedTxs : List Hash) (numbers : List Nat) : List DbKey :=
  (hashDifference fork.deletedTxs addedTxs).map .txLookup ++ numbers.map .canonical

theorem Fork.isCanonical_of_mem_staleKeys {fork : Fork} {addedTxs : List Hash}
    {numbers : List Nat} {key : DbKey} (mem : key ∈ fork.staleKeys addedTxs numbers) :
    key.isCanonical = true := by
  rw [staleKeys, List.mem_append, List.mem_map, List.mem_map] at mem
  rcases mem with ⟨_, -, rfl⟩ | ⟨_, -, rfl⟩
  · rfl
  · rfl

end BlockChain

variable [Encoding]

namespace BlockChain

/-- `ReorgNeeded`; no verdict if a total difficulty is missing. -/
def reorgNeeded (setup : ChainSetup) (coin : Bool) (current header : Header)
    (chain : BlockChain) : Option Bool × BlockChain :=
  let (localTd, chain) := chain.getTd current.hash current.numberU64
  let (externTd, chain) := chain.getTd header.hash header.numberU64
  match localTd, externTd with
  | some localTd, some externTd =>
    (some (setup.prefers coin current header localTd externTd), chain)
  | _, _ => (none, chain)

def headBatch (block : Block) (hashes : List Hash) : DbBatch :=
  writeHeadHeaderHash block.hash ++ writeCanonicalHash block.hash block.numberU64 ++
    writeTxLookupEntriesByBlock block.numberU64 hashes ++
    writeHeadBlockHash block.hash

/-- `writeHeadBlock`: the batch is filled and dropped, and only the head in
memory moves. -/
def writeHeadBlock (chain : BlockChain) (block : Block) : Except Fault BlockChain := do
  let hashes ← block.txHashes
  let _batch := headBatch block hashes
  return { chain with currentHeader := block.header, currentBlock := block }

/-- Walk towards the ancestors down to a number: the block there, if any, and the blocks passed. -/
def walkDown (db : ChainDb) (target : Nat) : Nat → Block → Except Fault (Option Block × List Block)
  | 0, _ => .error .outOfFuel
  | fuel + 1, block =>
    if block.numberU64 = target then .ok (some block, [])
    else
      match readBlock db block.parentHash block.parentNumber with
      | none => .ok (none, [block])
      | some parent => do
          let (last, passed) ← walkDown db target fuel parent
          return (last, block :: passed)

def findFork (db : ChainDb) : Nat → Block → Block → Except Fault (Except ChainError Fork)
  | 0, _, _ => .error .outOfFuel
  | fuel + 1, oldBlock, newBlock =>
    if oldBlock.hash = newBlock.hash then .ok (.ok { common := oldBlock })
    else do
      let hashes ← oldBlock.txHashes
      match readBlock db oldBlock.parentHash oldBlock.parentNumber,
          readBlock db newBlock.parentHash newBlock.parentNumber with
      | none, _ => return .error .invalidOldChain
      | some _, none => return .error .invalidNewChain
      | some oldParent, some newParent =>
        match ← findFork db fuel oldParent newParent with
        | .error error => return .error error
        | .ok fork =>
          return .ok { fork with
            newChain := newBlock :: fork.newChain
            deletedTxs := hashes ++ fork.deletedTxs }

/-- Both walks of `reorg`: first the longer branch, then both. -/
def branchPoint (db : ChainDb) (fuel : Nat) (oldBlock newBlock : Block) :
    Except Fault (Except ChainError Fork) :=
  if newBlock.numberU64 < oldBlock.numberU64 then do
    let (oldBlock, passed) ← walkDown db newBlock.numberU64 fuel oldBlock
    let hashes ← passed.mapM Block.txHashes
    match oldBlock with
    | none => return .error .invalidOldChain
    | some oldBlock =>
      match ← findFork db fuel oldBlock newBlock with
      | .error error => return .error error
      | .ok fork => return .ok { fork with deletedTxs := hashes.flatten ++ fork.deletedTxs }
  else do
    let (newBlock, passed) ← walkDown db oldBlock.numberU64 fuel newBlock
    match newBlock with
    | none => return .error .invalidNewChain
    | some newBlock =>
      match ← findFork db fuel oldBlock newBlock with
      | .error error => return .error error
      | .ok fork => return .ok { fork with newChain := passed ++ fork.newChain }

def staleNumbers (db : ChainDb) : Nat → Nat → Except Fault (List Nat)
  | 0, _ => .error .outOfFuel
  | fuel + 1, number =>
    if readCanonicalHash db number = 0 then .ok []
    else do
      let rest ← staleNumbers db fuel ((number + 1) % uint64Size)
      return number :: rest

def reorg (fuel : Nat) (oldBlock newBlock : Block) (chain : BlockChain) :
    Except Fault (Except ChainError Unit × BlockChain) := do
  match ← branchPoint chain.db fuel oldBlock newBlock with
  | .error error => return (.error error, chain)
  | .ok fork =>
    -- The new head itself is left to the caller.
    let inserted := (fork.newChain.drop 1).reverse
    let addedTxs ← inserted.mapM Block.txHashes
    let moved ← inserted.foldlM writeHeadBlock chain
    let numbers ← staleNumbers moved.db fuel ((fork.lastKept + 1) % uint64Size)
    let keys := fork.staleKeys addedTxs.flatten numbers
    return (.ok (), { moved with db := moved.db.commit (keys.map .delete) })

theorem reorgNeeded_caches (setup : ChainSetup) (coin : Bool) (current header : Header)
    (chain : BlockChain) :
    ∃ caches,
      (chain.reorgNeeded setup coin current header).2 = { chain with caches := caches } := by
  simp only [reorgNeeded]
  split
  · exact ⟨_, rfl⟩
  · exact ⟨_, rfl⟩

theorem writeHeadBlock_eq_ok {chain new : BlockChain} {block : Block}
    (ran : chain.writeHeadBlock block = .ok new) :
    new = { chain with currentHeader := block.header, currentBlock := block } := by
  simp only [writeHeadBlock] at ran
  rcases hashes : block.txHashes with fault | found
  · rw [hashes] at ran
    cases ran
  · rw [hashes] at ran
    cases ran
    rfl

theorem foldlM_writeHeadBlock {blocks : List Block} {chain new : BlockChain}
    (ran : blocks.foldlM writeHeadBlock chain = .ok new) :
    ∃ header block, new = { chain with currentHeader := header, currentBlock := block } := by
  induction blocks generalizing chain with
  | nil =>
    cases ran
    exact ⟨_, _, rfl⟩
  | cons block _ rest =>
    rw [List.foldlM_cons] at ran
    rcases wrote : chain.writeHeadBlock block with fault | moved
    · rw [wrote] at ran
      cases ran
    · rw [wrote] at ran
      rcases rest ran with ⟨header, last, rfl⟩
      exact ⟨header, last, by rw [writeHeadBlock_eq_ok wrote]⟩

/-- A reorganisation fails where its walks fail, and then changes nothing; else it deletes
entries of the index and of the transaction lookup, and moves the head in memory. -/
theorem reorg_cases {chain new : BlockChain} {result : Except ChainError Unit}
    (ran : chain.reorg fuel oldBlock newBlock = .ok (result, new)) :
    (∃ error, branchPoint chain.db fuel oldBlock newBlock = .ok (.error error) ∧
        result = .error error ∧ new = chain) ∨
      ∃ (keys : List DbKey) (header : Header) (block : Block), result = .ok () ∧
        (∀ key ∈ keys, key.isCanonical = true) ∧
        new = { chain with
          db := chain.db.commit (keys.map .delete)
          currentHeader := header
          currentBlock := block } := by
  simp only [reorg] at ran
  rcases walked : branchPoint chain.db fuel oldBlock newBlock with fault | error | fork
  · rw [walked] at ran
    cases ran
  · rw [walked] at ran
    cases ran
    exact .inl ⟨error, rfl, rfl, rfl⟩
  · rw [walked] at ran
    rcases hashes : (fork.newChain.drop 1).reverse.mapM Block.txHashes with fault | addedTxs
    · simp only [hashes, bind, Except.bind, reduceCtorEq] at ran
    rcases wrote : (fork.newChain.drop 1).reverse.foldlM writeHeadBlock chain with fault | moved
    · simp only [hashes, wrote, bind, Except.bind, reduceCtorEq] at ran
    rcases found : staleNumbers moved.db fuel ((fork.lastKept + 1) % uint64Size)
      with fault | numbers
    · simp only [hashes, wrote, found, bind, Except.bind, reduceCtorEq] at ran
    simp only [hashes, wrote, found, bind, Except.bind, pure, Except.pure, Except.ok.injEq] at ran
    rcases ran with ⟨rfl, rfl⟩
    rcases foldlM_writeHeadBlock wrote with ⟨header, block, rfl⟩
    exact .inr ⟨fork.staleKeys addedTxs.flatten numbers, header, block, rfl,
      fun key mem => Fork.isCanonical_of_mem_staleKeys mem, rfl⟩

theorem reorg_of_branchPoint_error (chain : BlockChain) {error : ChainError}
    (failed : branchPoint chain.db fuel oldBlock newBlock = .ok (.error error)) :
    chain.reorg fuel oldBlock newBlock = .ok (.error error, chain) := by
  simp only [reorg, failed]
  rfl

end BlockChain

end Octopus
