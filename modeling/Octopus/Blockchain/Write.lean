import Octopus.Blockchain.BlockChain

/-!
# Writing and inserting blocks

A block is stored before its state is committed and before the fork choice, so an error of
either leaves it in the database.  `insertChain` takes the first block of its batch only,
drops the result of the header verification and overwrites the error of `Process`.  Its
last part waits for an error that the write does not return, and is left out here.
-/

namespace Octopus

open Library

variable {stored : BlockChain} {error : ChainError}

namespace BlockChain

section

variable [Encoding]

def storeBlock (chain : BlockChain) (block : Block) (receipts : List Receipt) (td : Nat) :
    BlockChain :=
  { chain with db := chain.db.commit (Rawdb.blockBatch block receipts td) }

/-- The chain with a block stored.  Its caches and its state database may have
changed too. -/
def Stored (before after : BlockChain) (block : Block) (receipts : List Receipt) : Prop :=
  ∃ td caches operationCache, after =
    { before.storeBlock block receipts td with caches := caches, operationCache := operationCache }

theorem Stored.lookup_index {old : BlockChain} {block : Block} {receipts : List Receipt}
    (kept : old.Stored stored block receipts) {key : DbKey} (index : key.isIndex = true) :
    stored.db.lookup key = old.db.lookup key := by
  rcases kept with ⟨_, _, _, rfl⟩
  exact Rawdb.lookup_index_blockBatch index

/-- The fork choice of `writeBlockAndSetHead`, and the new head if it falls on
the block. -/
def setHead (setup : ChainSetup) (fuel : Nat) (coin : Bool) (block : Block) :
    Go BlockChain (Except ChainError WriteStatus) := fun chain =>
  match chain.reorgNeeded setup coin chain.currentBlock.header block.header with
  | (none, chain) => .ok (.error .missingTd, chain)
  | (some false, chain) => .ok (.ok .side, chain)
  | (some true, chain) =>
    if block.parentHash = chain.currentBlock.hash then
      (chain.writeHeadBlock block).map fun chain => (.ok .canon, chain)
    else
      match chain.reorg fuel chain.currentBlock block with
      | .error fault => .error fault
      | .ok (.error error, chain) => .ok (.error error, chain)
      | .ok (.ok (), chain) => (chain.writeHeadBlock block).map fun chain => (.ok .canon, chain)

def verdict (setup : ChainSetup) (coin : Bool) (block : Block) (chain : BlockChain) : Option Bool :=
  (chain.reorgNeeded setup coin chain.currentBlock.header block.header).1

/-- How the fork choice on a block can end.  Errors and side blocks leave everything but the
caches alone; a new head moves the head in memory and may delete index entries. -/
inductive HeadOutcome (setup : ChainSetup) (coin : Bool) (before : BlockChain) (block : Block) :
    Except ChainError WriteStatus → BlockChain → Prop where
  | failed (error : ChainError) (caches : HeaderCaches) :
      HeadOutcome setup coin before block (.error error) { before with caches := caches }
  | side (lost : before.verdict setup coin block = some false) (caches : HeaderCaches) :
      HeadOutcome setup coin before block (.ok .side) { before with caches := caches }
  | canon (won : before.verdict setup coin block = some true) (caches : HeaderCaches)
      (keys : List DbKey) (stale : ∀ key ∈ keys, key.isCanonical = true) :
      HeadOutcome setup coin before block (.ok .canon)
        { before with
          caches := caches
          db := before.db.commit (keys.map .delete)
          currentHeader := block.header
          currentBlock := block }

variable {setup : ChainSetup} {fuel : Nat} {coin : Bool} {block : Block} {chain new : BlockChain}
  {res : Except ChainError WriteStatus}

theorem map_writeHeadBlock_eq_ok
    (ran : ((chain.writeHeadBlock block).map fun chain => (Except.ok .canon, chain)) =
      .ok (res, new)) :
    res = .ok .canon ∧
      new = { chain with currentHeader := block.header, currentBlock := block } := by
  rcases wrote : chain.writeHeadBlock block with fault | moved
  · rw [wrote] at ran
    cases ran
  · rw [wrote] at ran
    cases ran
    exact ⟨rfl, writeHeadBlock_eq_ok wrote⟩

theorem setHead_outcome (ran : setHead setup fuel coin block chain = .ok (res, new)) :
    HeadOutcome setup coin chain block res new := by
  rcases chain.reorgNeeded_caches setup coin chain.currentBlock.header block.header with
    ⟨caches, read⟩
  rcases needed : chain.reorgNeeded setup coin chain.currentBlock.header block.header with
    ⟨answer, cached⟩
  have said : chain.verdict setup coin block = answer := by rw [verdict, needed]
  rw [needed] at read
  subst read
  simp only [setHead, needed] at ran
  rcases answer with _ | _ | _
  · cases ran
    exact .failed _ _
  · cases ran
    exact .side said _
  · simp only at ran
    split_ifs at ran with onHead
    · rcases map_writeHeadBlock_eq_ok ran with ⟨rfl, rfl⟩
      exact .canon said caches [] (by simp)
    · rcases reorganised : reorg fuel chain.currentBlock block { chain with caches := caches }
        with fault | ⟨error | _, moved⟩
      · rw [reorganised] at ran
        cases ran
      · rw [reorganised] at ran
        cases ran
        rcases reorg_cases reorganised with ⟨_, -, -, rfl⟩ | ⟨_, _, _, impossible, -⟩
        · exact .failed _ _
        · cases impossible
      · rw [reorganised] at ran
        rcases map_writeHeadBlock_eq_ok ran with ⟨rfl, rfl⟩
        rcases reorg_cases reorganised with ⟨_, -, impossible, -⟩ | ⟨keys, _, _, -, stale, rfl⟩
        · cases impossible
        · exact .canon said caches keys stale

theorem setHead_error
    (ran : setHead setup fuel coin block stored = .ok (.error error, new)) :
    (stored.verdict setup coin block = none ∨ stored.verdict setup coin block = some true ∧
          block.parentHash ≠ stored.currentBlock.hash ∧
          ∃ error, branchPoint stored.db fuel stored.currentBlock block = .ok (.error error)) ∧
      ∃ caches, new = { stored with caches := caches } := by
  have same : ∃ caches, new = { stored with caches := caches } := by
    cases setHead_outcome ran with
    | failed _ caches => exact ⟨caches, rfl⟩
  refine ⟨?_, same⟩
  rcases stored.reorgNeeded_caches setup coin stored.currentBlock.header block.header with
    ⟨caches, read⟩
  rcases needed : stored.reorgNeeded setup coin stored.currentBlock.header block.header with
    ⟨answer, cached⟩
  rw [needed] at read
  subst read
  rw [verdict, needed]
  simp only [setHead, needed] at ran
  rcases answer with _ | _ | _
  · exact .inl rfl
  · cases ran
  · right
    simp only at ran
    split_ifs at ran with onHead
    · cases (map_writeHeadBlock_eq_ok ran).1
    · refine ⟨rfl, onHead, ?_⟩
      rcases reorganised : reorg fuel stored.currentBlock block { stored with caches := caches }
        with fault | ⟨reason | _, moved⟩
      · rw [reorganised] at ran
        cases ran
      · rcases reorg_cases reorganised with ⟨found, walked, -⟩ | ⟨_, _, _, impossible, -⟩
        · exact ⟨found, walked⟩
        · cases impossible
      · rw [reorganised] at ran
        cases (map_writeHeadBlock_eq_ok ran).1

theorem setHead_of_no_verdict (unknown : stored.verdict setup coin block = none) :
    ∃ error new, setHead setup fuel coin block stored = .ok (.error error, new) := by
  rw [verdict] at unknown
  rcases needed : stored.reorgNeeded setup coin stored.currentBlock.header block.header with
    ⟨answer, cached⟩
  rw [needed] at unknown
  cases unknown
  simp only [setHead, needed]
  exact ⟨_, _, rfl⟩

theorem setHead_of_no_branchPoint (won : stored.verdict setup coin block = some true)
    (elsewhere : block.parentHash ≠ stored.currentBlock.hash)
    (apart : branchPoint stored.db fuel stored.currentBlock block = .ok (.error error)) :
    ∃ error new, setHead setup fuel coin block stored = .ok (.error error, new) := by
  rcases stored.reorgNeeded_caches setup coin stored.currentBlock.header block.header with
    ⟨caches, read⟩
  rw [verdict] at won
  rcases needed : stored.reorgNeeded setup coin stored.currentBlock.header block.header with
    ⟨answer, cached⟩
  rw [needed] at read won
  subst read
  cases won
  refine ⟨error, { stored with caches := caches }, ?_⟩
  have failed := reorg_of_branchPoint_error { stored with caches := caches } apart
  simp only [setHead, needed, elsewhere, if_false]
  rw [failed]

end

variable [Crypto] [Encoding]

/-- `writeBlockWithState`.  The state commits to the database as the chain has it now. -/
def writeBlockWithState (setup : ChainSetup) (block : Block) (receipts : List Receipt)
    (state : OperationDB) : Go BlockChain (Except ChainError Unit) := fun chain =>
  match chain.getTd block.parentHash block.parentNumber with
  | (none, chain) => .ok (.error .unknownAncestor, chain)
  | (some ptd, chain) =>
    let chain := chain.storeBlock block receipts (block.header.difficulty + ptd)
    match { state with database := chain.operationCache }.commit
        (setup.context.config.isEIP158 block.number) with
    | .error fault => .error fault
    | .ok (.error error, state) =>
      .ok (.error (.commit error), { chain with operationCache := state.database })
    | .ok (.ok _, state) => .ok (.ok (), { chain with operationCache := state.database })

def writeBlockAndSetHead (setup : ChainSetup) (fuel : Nat) (coin : Bool) (block : Block)
    (receipts : List Receipt) (state : OperationDB) :
    Go BlockChain (Except ChainError WriteStatus) := fun chain =>
  match writeBlockWithState setup block receipts state chain with
  | .error fault => .error fault
  | .ok (.error error, chain) => .ok (.error error, chain)
  | .ok (.ok (), chain) => setHead setup fuel coin block chain

/-- The receipts that `Process` returns, and the state it leaves; on an error
there are no receipts. -/
def processed (setup : ChainSetup) (fuel : Nat) (block : Block) (state : OperationDB) :
    Except Fault (List Receipt × OperationDB) :=
  match process setup.context fuel block state with
  | .error fault => .error fault
  | .ok (.error _, state) => .ok ([], state)
  | .ok (.ok (receipts, _), state) => .ok (receipts, state)

/-- What `insertChain` does with the first block once its parent is known. -/
def insertBlock (setup : ChainSetup) (fuel : Nat) (coin : Bool) (parent : Header)
    (block : Block) : Go BlockChain (Option ChainError) := fun chain =>
  match newOperationDb parent.root chain.operationCache with
  | none => .ok (some (.missingState parent.root), chain)
  | some state =>
    match processed setup fuel block state with
    | .error fault => .error fault
    | .ok (receipts, state) =>
      match writeBlockAndSetHead setup fuel coin block receipts state chain with
      | .error fault => .error fault
      | .ok (.error error, chain) => .ok (some error, chain)
      | .ok (.ok _, chain) => .ok (none, chain)

/-- `insertChain` as `InsertChain` calls it, with the index and the error it
returns. -/
def insertChain (setup : ChainSetup) (fuel : Nat) (coin : Bool) (batch : List Block) :
    Go BlockChain (Nat × Option ChainError) := fun chain =>
  match setup.engine.verifyNilHeaders batch.length, batch with
  | .error fault, _ => .error fault
  | .ok (), [] => .error nilDereference
  | .ok (), block :: _ =>
    match chain.getHeader block.parentHash block.parentNumber with
    | (none, _) => .error nilDereference
    | (some parent, chain) =>
      match insertBlock setup fuel coin parent block chain with
      | .error fault => .error fault
      | .ok (error, chain) => .ok ((0, error), chain)

variable {setup : ChainSetup} {fuel : Nat} {coin : Bool} {block : Block}
  {receipts : List Receipt} {state : OperationDB} {chain new : BlockChain}

/-- A block whose parent has no total difficulty is refused; any other one is stored, whether or
not its state can be committed. -/
theorem writeBlockWithState_cases {res : Except ChainError Unit}
    (ran : writeBlockWithState setup block receipts state chain = .ok (res, new)) :
    ((chain.getTd block.parentHash block.parentNumber).1 = none ∧
        res = .error .unknownAncestor ∧ ∃ caches, new = { chain with caches := caches }) ∨
      (chain.getTd block.parentHash block.parentNumber).1 ≠ none ∧ chain.Stored new block receipts ∧
        (res = .ok () ∨ ∃ error, res = .error (.commit error)) := by
  rcases chain.getTd_caches block.parentHash block.parentNumber with ⟨caches, read⟩
  rcases known : chain.getTd block.parentHash block.parentNumber with ⟨_ | _, _⟩
  · rw [known] at read
    simp only [writeBlockWithState, known] at ran
    cases ran
    exact .inl ⟨rfl, rfl, caches, read⟩
  rw [known] at read
  subst read
  simp only [writeBlockWithState, known] at ran
  right
  refine ⟨by simp, ?_⟩
  split at ran
  · cases ran
  · cases ran
    exact ⟨⟨_, _, _, rfl⟩, .inr ⟨_, rfl⟩⟩
  · cases ran
    exact ⟨⟨_, _, _, rfl⟩, .inl rfl⟩

theorem writeBlockAndSetHead_cases {res : Except ChainError WriteStatus}
    (ran : writeBlockAndSetHead setup fuel coin block receipts state chain = .ok (res, new)) :
    ((chain.getTd block.parentHash block.parentNumber).1 = none ∧
        res = .error .unknownAncestor ∧ ∃ caches, new = { chain with caches := caches }) ∨
      (chain.getTd block.parentHash block.parentNumber).1 ≠ none ∧
        ((∃ error, writeBlockWithState setup block receipts state chain =
            .ok (.error (.commit error), new) ∧ chain.Stored new block receipts ∧
            res = .error (.commit error)) ∨
          ∃ stored, writeBlockWithState setup block receipts state chain = .ok (.ok (), stored) ∧
            chain.Stored stored block receipts ∧
            setHead setup fuel coin block stored = .ok (res, new)) := by
  rcases wrote : writeBlockWithState setup block receipts state chain
    with fault | ⟨error | _, stored⟩
  · simp only [writeBlockAndSetHead, wrote, reduceCtorEq] at ran
  · simp only [writeBlockAndSetHead, wrote] at ran
    cases ran
    rcases writeBlockWithState_cases wrote with ⟨unknown, failed, same⟩ | ⟨known, kept, outcome⟩
    · cases failed
      exact .inl ⟨unknown, rfl, same⟩
    · rcases outcome with impossible | ⟨reason, failed⟩
      · cases impossible
      · cases failed
        exact .inr ⟨known, .inl ⟨reason, rfl, kept, rfl⟩⟩
  · simp only [writeBlockAndSetHead, wrote] at ran
    rcases writeBlockWithState_cases wrote with ⟨_, impossible, _⟩ | ⟨known, kept, _⟩
    · cases impossible
    · exact .inr ⟨known, .inr ⟨stored, rfl, kept, ran⟩⟩

end BlockChain

end Octopus
