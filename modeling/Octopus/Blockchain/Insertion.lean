import Octopus.Blockchain.Opening
import Octopus.Blockchain.Write

/-!
# What an insertion lets into the chain

`insertChain` does not check that a batch links up from a stored header and can be
verified and processed.  It is safe on a batch for which all this holds anyway, and on one
whose first block fails for a reason of the write.
-/

namespace Octopus

open Library

variable {batch front : List Block} {parent : Header} {error : Option ChainError} {other : Block}

namespace BlockChain

section

variable [Encoding]

def Stores (chain : BlockChain) (block : Block) : Prop :=
  chain.getBlock block.hash block.numberU64 ≠ none

def Adopts (before after : BlockChain) (block : Block) : Prop :=
  (after.Stores block ∧ ¬before.Stores block) ∨
    (after.currentBlock.hash = block.hash ∧ before.currentBlock.hash ≠ block.hash)

variable {chain after : BlockChain} {block : Block} {receipts : List Receipt}

section

variable (kept : chain.Stored after block receipts)
include kept

theorem Stored.stores : after.Stores block := by
  rcases kept with ⟨_, _, _, rfl⟩
  rw [Stores, getBlock, storeBlock, Rawdb.readBlock_blockBatch]
  exact Option.some_ne_none _

theorem Stored.eq_of_stores (here : after.Stores other) (absent : ¬chain.Stores other) :
    other.hash = block.hash ∧ other.numberU64 = block.numberU64 := by
  rcases kept with ⟨_, _, _, rfl⟩
  by_contra different
  apply absent
  rw [Stores, getBlock, storeBlock, Rawdb.readBlock_blockBatch_of_ne] at here
  · exact here
  · rintro ⟨num, hash⟩
    exact different ⟨hash, num⟩

end

theorem not_adopts_caches (caches : HeaderCaches) (other : Block) :
    ¬chain.Adopts { chain with caches := caches } other := by
  rintro (⟨here, absent⟩ | ⟨same, different⟩)
  · exact absent here
  · exact different same

end

variable [Crypto] [Encoding]

def committed (setup : ChainSetup) (block : Block) (state : OperationDB) : Database :=
  match state.commit (setup.context.config.isEIP158 block.number) with
  | .error _ => state.database
  | .ok (_, state) => state.database

/-- Blocks on top of a parent, each linked to the one before, with an accepted header, on which
`Process` succeeds in the state of the one before. -/
def Importable (setup : ChainSetup) (fuel : Nat) : Header → Database → List Block → Prop
  | _, _, [] => True
  | parent, database, block :: rest =>
    parent.hash = block.parentHash ∧ parent.number + 1 = block.number ∧
      setup.engine.Accepts parent block.header ∧
      ∃ state result after, newOperationDb parent.root database = some state ∧
        process setup.context fuel block state = .ok (.ok result, after) ∧
        Importable setup fuel block.header (committed setup block after) rest

def Valid (setup : ChainSetup) (fuel : Nat) (chain : BlockChain) (batch : List Block) : Prop :=
  batch = [] ∨ ∃ parent, Rawdb.readHeader chain.db parent.hash parent.numberU64 = some parent ∧
    Importable setup fuel parent chain.operationCache batch

/-- The insertion adopts a block only if the batch is valid up to it, and returns an error for a
batch that is not valid.  A block is what has its hash and number. -/
structure InsertSafe (setup : ChainSetup) (fuel : Nat) (coin : Bool) (chain : BlockChain)
    (batch : List Block) : Prop where
  adopted : ∀ result after, insertChain setup fuel coin batch chain = .ok (result, after) →
    ∀ block ∈ batch, chain.Adopts after block →
      ∃ front accepted, front ++ [accepted] <+: batch ∧ accepted.hash = block.hash ∧
        accepted.numberU64 = block.numberU64 ∧ chain.Valid setup fuel (front ++ [accepted])
  reported : ¬chain.Valid setup fuel batch →
    ∃ index error after, insertChain setup fuel coin batch chain = .ok ((index, some error), after)

def Executes (setup : ChainSetup) (fuel : Nat) (chain : BlockChain) (parent : Header)
    (block : Block) (receipts : List Receipt) (state : OperationDB) : Prop :=
  ∃ opened, newOperationDb parent.root chain.operationCache = some opened ∧
    processed setup fuel block opened = .ok (receipts, state)

/-- The write fails after it has stored the block: its state cannot be committed, a total
difficulty is missing, or its branch and that of the head do not meet. -/
def FailsLate (setup : ChainSetup) (fuel : Nat) (coin : Bool) (chain : BlockChain)
    (block : Block) (receipts : List Receipt) (state : OperationDB) : Prop :=
  (∃ error after, writeBlockWithState setup block receipts state chain =
      .ok (.error (.commit error), after)) ∨
    ∃ stored, writeBlockWithState setup block receipts state chain = .ok (.ok (), stored) ∧
      (stored.verdict setup coin block = none ∨
        stored.verdict setup coin block = some true ∧
          block.parentHash ≠ stored.currentBlock.hash ∧
          ∃ error, branchPoint stored.db fuel stored.currentBlock block = .ok (.error error))

/-- The first block fails for a reason of the write: the state or total difficulty of its parent
is missing, or it is valid or known already and fails late. -/
def FirstRefused (setup : ChainSetup) (fuel : Nat) (coin : Bool) (chain : BlockChain)
    (batch : List Block) : Prop :=
  ∃ block rest parent, batch = block :: rest ∧ setup.engine.powMode = .fullFake ∧
    (chain.getHeader block.parentHash block.parentNumber).1 = some parent ∧
    (newOperationDb parent.root chain.operationCache = none ∨
      ∃ receipts state, chain.Executes setup fuel parent block receipts state ∧
        ((chain.getTd block.parentHash block.parentNumber).1 = none ∨
          (chain.Stores block ∨ chain.Valid setup fuel [block]) ∧
            (chain.getHeader block.parentHash block.parentNumber).2.FailsLate setup fuel coin
              block receipts state))

variable {setup : ChainSetup} {fuel : Nat} {coin : Bool} {chain : BlockChain}

theorem Importable.of_shorter {database : Database} (shorter : front <+: batch)
    (importable : Importable setup fuel parent database batch) :
    Importable setup fuel parent database front := by
  induction front generalizing parent database batch with
  | nil => exact trivial
  | cons _ front tail =>
    rcases shorter with ⟨back, rfl⟩
    rcases importable with ⟨hash, num, accepted, state, result, after, opened, ran, rest⟩
    exact ⟨hash, num, accepted, state, result, after, opened, ran,
      tail (List.prefix_append front back) rest⟩

theorem Valid.of_shorter (valid : chain.Valid setup fuel batch) (shorter : front <+: batch) :
    chain.Valid setup fuel front := by
  rcases valid with rfl | ⟨parent, stored, importable⟩
  · exact .inl (List.prefix_nil.mp shorter)
  · exact .inr ⟨parent, stored, importable.of_shorter shorter⟩

theorem Valid.insertSafe (valid : chain.Valid setup fuel batch) :
    InsertSafe setup fuel coin chain batch where
  adopted := by
    intro _ _ _ block mem _
    rcases List.append_of_mem mem with ⟨front, back, rfl⟩
    have upTo : front ++ [block] <+: front ++ block :: back := ⟨back, by simp⟩
    exact ⟨front, block, upTo, rfl, rfl, valid.of_shorter upTo⟩
  reported invalid := absurd valid invalid

variable {block : Block} {receipts : List Receipt} {state : OperationDB} {after : BlockChain}

theorem writeBlockAndSetHead_error_iff :
    (∃ error after, writeBlockAndSetHead setup fuel coin block receipts state chain =
        .ok (.error error, after)) ↔ (chain.getTd block.parentHash block.parentNumber).1 = none ∨
        chain.FailsLate setup fuel coin block receipts state := by
  constructor
  · rintro ⟨error, after, returned⟩
    rcases writeBlockAndSetHead_cases returned with ⟨unknown, -⟩ | ⟨-, outcome⟩
    · exact .inl unknown
    · rcases outcome with ⟨reason, wrote, -⟩ | ⟨stored, wrote, -, chosen⟩
      · exact .inr (.inl ⟨reason, after, wrote⟩)
      · exact .inr (.inr ⟨stored, wrote, (setHead_error chosen).1⟩)
  · rintro (unknown | ⟨error, after, wrote⟩ | ⟨stored, wrote, unknown | failed⟩)
    · rcases known : chain.getTd block.parentHash block.parentNumber with ⟨_, cached⟩
      rw [known] at unknown
      cases unknown
      exact ⟨.unknownAncestor, cached, by simp [writeBlockAndSetHead, writeBlockWithState, known]⟩
    · exact ⟨.commit error, after, by simp [writeBlockAndSetHead, wrote]⟩
    · simp only [writeBlockAndSetHead, wrote]
      exact setHead_of_no_verdict unknown
    · rcases failed with ⟨won, elsewhere, error, apart⟩
      simp only [writeBlockAndSetHead, wrote]
      exact setHead_of_no_branchPoint won elsewhere apart

section

variable {error : ChainError}
  (returned : writeBlockAndSetHead setup fuel coin block receipts state chain =
    .ok (.error error, after))
include returned

theorem eq_of_adopts_of_write_error (adopts : chain.Adopts after other) :
    (chain.getTd block.parentHash block.parentNumber).1 ≠ none ∧ other.hash = block.hash ∧
      other.numberU64 = block.numberU64 ∧ ¬chain.Stores block := by
  have ofStored : ∀ stored caches, chain.Stored stored block receipts →
      after = { stored with caches := caches } →
      other.hash = block.hash ∧ other.numberU64 = block.numberU64 ∧ ¬chain.Stores block := by
    rintro stored caches kept rfl
    rcases adopts with ⟨here, absent⟩ | ⟨same, different⟩
    · rcases kept.eq_of_stores here absent with ⟨hash, num⟩
      refine ⟨hash, num, ?_⟩
      rwa [Stores, ← hash, ← num]
    · rcases kept with ⟨_, _, _, rfl⟩
      exact absurd same different
  rcases writeBlockAndSetHead_cases returned with ⟨-, -, caches, rfl⟩ | ⟨known, outcome⟩
  · exact absurd adopts (not_adopts_caches caches other)
  refine ⟨known, ?_⟩
  rcases outcome with ⟨-, -, kept, -⟩ | ⟨stored, -, kept, chosen⟩
  · exact ofStored after after.caches kept rfl
  · rcases (setHead_error chosen).2 with ⟨caches, same⟩
    exact ofStored stored caches kept same

theorem stores_of_write_error (known : (chain.getTd block.parentHash block.parentNumber).1 ≠ none) :
    after.Stores block := by
  rcases writeBlockAndSetHead_cases returned with ⟨unknown, -⟩ | ⟨-, outcome⟩
  · exact absurd unknown known
  · rcases outcome with ⟨-, -, kept, -⟩ | ⟨_, -, kept, chosen⟩
    · exact kept.stores
    · rcases (setHead_error chosen).2 with ⟨_, rfl⟩
      exact kept.stores

end

theorem insertBlock_cases
    (returned : insertBlock setup fuel coin parent block chain = .ok (error, after)) :
    (newOperationDb parent.root chain.operationCache = none ∧ after = chain ∧
        error = some (.missingState parent.root)) ∨
      ∃ receipts state, chain.Executes setup fuel parent block receipts state ∧
        ((∃ reason, error = some reason ∧ writeBlockAndSetHead setup fuel coin block receipts state
            chain = .ok (.error reason, after)) ∨
          ∃ status, error = none ∧ writeBlockAndSetHead setup fuel coin block receipts state
            chain = .ok (.ok status, after)) := by
  rcases opened : newOperationDb parent.root chain.operationCache with _ | state
  · simp only [insertBlock, opened] at returned
    cases returned
    exact .inl ⟨rfl, rfl, rfl⟩
  rcases ran : processed setup fuel block state with fault | ⟨receipts, left⟩
  · simp only [insertBlock, opened, ran, reduceCtorEq] at returned
  refine .inr ⟨receipts, left, ⟨state, opened, ran⟩, ?_⟩
  rcases wrote : writeBlockAndSetHead setup fuel coin block receipts left chain
    with fault | ⟨reason | status, moved⟩
  · simp only [insertBlock, opened, ran, wrote, reduceCtorEq] at returned
  · simp only [insertBlock, opened, ran, wrote] at returned
    cases returned
    exact .inl ⟨reason, rfl, rfl⟩
  · simp only [insertBlock, opened, ran, wrote] at returned
    cases returned
    exact .inr ⟨status, rfl, rfl⟩

theorem insertBlock_of_missing (missing : newOperationDb parent.root chain.operationCache = none) :
    insertBlock setup fuel coin parent block chain =
      .ok (some (.missingState parent.root), chain) := by
  simp [insertBlock, missing]

theorem insertBlock_of_write_error {error : ChainError}
    (executes : chain.Executes setup fuel parent block receipts state)
    (wrote : writeBlockAndSetHead setup fuel coin block receipts state chain =
      .ok (.error error, after)) :
    insertBlock setup fuel coin parent block chain = .ok (some error, after) := by
  rcases executes with ⟨_, found, ran⟩
  simp [insertBlock, found, ran, wrote]

theorem insertChain_cases {index : Nat}
    (returned : insertChain setup fuel coin batch chain = .ok ((index, error), after)) :
    ∃ block rest parent, batch = block :: rest ∧ setup.engine.powMode = .fullFake ∧
      (chain.getHeader block.parentHash block.parentNumber).1 = some parent ∧
      insertBlock setup fuel coin parent block
        (chain.getHeader block.parentHash block.parentNumber).2 = .ok (error, after) := by
  rcases batch with _ | ⟨block, rest⟩
  · simp [insertChain, Octell.verifyNilHeaders] at returned
  by_cases fake : setup.engine.powMode = .fullFake
  · simp only [insertChain, Octell.verifyNilHeaders, fake, true_or, if_true] at returned
    rcases found : chain.getHeader block.parentHash block.parentNumber with ⟨_ | parent, cached⟩
    · rw [found] at returned
      cases returned
    simp only [found] at returned
    rcases inserted : insertBlock setup fuel coin parent block cached with fault | ⟨_, _⟩
    · rw [inserted] at returned
      cases returned
    · rw [inserted] at returned
      cases returned
      exact ⟨block, rest, parent, rfl, fake, by rw [found], by rw [found, inserted]⟩
  · simp [insertChain, Octell.verifyNilHeaders, fake] at returned

theorem insertChain_of_insertBlock (rest : List Block) (fake : setup.engine.powMode = .fullFake)
    (found : (chain.getHeader block.parentHash block.parentNumber).1 = some parent)
    (inserted : insertBlock setup fuel coin parent block
      (chain.getHeader block.parentHash block.parentNumber).2 = .ok (error, after)) :
    insertChain setup fuel coin (block :: rest) chain = .ok ((0, error), after) := by
  rcases read : chain.getHeader block.parentHash block.parentNumber with ⟨_, _⟩
  rw [read] at found inserted
  cases found
  simp [insertChain, Octell.verifyNilHeaders, fake, read, inserted]

theorem FirstRefused.insertSafe (refused : chain.FirstRefused setup fuel coin batch) :
    InsertSafe setup fuel coin chain batch := by
  rcases refused with ⟨block, rest, parent, rfl, fake, found, reason⟩
  rcases chain.getHeader_caches block.parentHash block.parentNumber with ⟨caches, read⟩
  have outcome : ∃ error after, insertBlock setup fuel coin parent block
        (chain.getHeader block.parentHash block.parentNumber).2 = .ok (some error, after) ∧
      ∀ other, chain.Adopts after other → other.hash = block.hash ∧
        other.numberU64 = block.numberU64 ∧ chain.Valid setup fuel [block] := by
    rw [read]
    rcases reason with missing | ⟨receipts, state, executes, reason⟩
    · refine ⟨_, _, insertBlock_of_missing missing, ?_⟩
      intro other adopts
      exact absurd adopts (not_adopts_caches caches other)
    have fails : ∃ error after, writeBlockAndSetHead setup fuel coin block receipts state
        { chain with caches := caches } = .ok (.error error, after) := by
      rw [writeBlockAndSetHead_error_iff]
      rcases reason with unknown | ⟨-, late⟩
      · rw [← read]
        exact .inl unknown
      · rw [← read]
        exact .inr late
    rcases fails with ⟨error, after, wrote⟩
    refine ⟨error, after, insertBlock_of_write_error executes wrote, ?_⟩
    intro other adopts
    rcases eq_of_adopts_of_write_error wrote adopts with ⟨known, hash, num, absent⟩
    refine ⟨hash, num, ?_⟩
    rcases reason with unknown | ⟨stored | valid, -⟩
    · rw [← read] at known
      exact absurd unknown known
    · exact absurd stored absent
    · exact valid
  rcases outcome with ⟨error, after, inserted, onlyFirst⟩
  have returned := insertChain_of_insertBlock rest fake found inserted
  refine ⟨?_, fun _ => ⟨0, error, after, returned⟩⟩
  intro _ _ returnedAgain other _ adopts
  rw [returned] at returnedAgain
  cases returnedAgain
  rcases onlyFirst other adopts with ⟨hash, num, valid⟩
  exact ⟨[], block, ⟨rest, rfl⟩, hash.symm, num.symm, valid⟩

theorem InsertSafe.firstRefused (safe : InsertSafe setup fuel coin chain batch)
    (invalid : ¬chain.Valid setup fuel batch) : chain.FirstRefused setup fuel coin batch := by
  rcases safe.reported invalid with ⟨_, _, after, returned⟩
  rcases insertChain_cases returned with ⟨block, rest, parent, rfl, fake, found, inserted⟩
  refine ⟨block, rest, parent, rfl, fake, found, ?_⟩
  rcases chain.getHeader_caches block.parentHash block.parentNumber with ⟨caches, read⟩
  rw [read] at inserted
  rw [read]
  rcases insertBlock_cases inserted with ⟨missing, -⟩ | ⟨receipts, state, executes, outcome⟩
  · exact .inl missing
  refine .inr ⟨receipts, state, executes, ?_⟩
  rcases outcome with ⟨reason, -, wrote⟩ | ⟨-, impossible, -⟩
  · rcases writeBlockAndSetHead_error_iff.mp ⟨reason, after, wrote⟩ with unknown | late
    · rw [← read] at unknown
      exact .inl unknown
    by_cases unknown : (chain.getTd block.parentHash block.parentNumber).1 = none
    · exact .inl unknown
    refine .inr ⟨?_, late⟩
    by_cases stored : chain.Stores block
    · exact .inl stored
    -- The block is new, so the insertion answers for it.
    have known : (({ chain with caches := caches } : BlockChain).getTd block.parentHash
        block.parentNumber).1 ≠ none := by
      rwa [← read]
    have adopts : chain.Adopts after block :=
      .inl ⟨stores_of_write_error wrote known, stored⟩
    rcases safe.adopted _ after returned block List.mem_cons_self adopts with
      ⟨front, accepted, shorter, -, -, valid⟩
    refine .inr (valid.of_shorter ?_)
    exact List.prefix_of_prefix_length_le ⟨rest, rfl⟩ shorter (by simp)
  · cases impossible

/-- Insertions are safe exactly on batches that are valid or whose first block is refused. -/
theorem insertSafe_iff_valid_or_refused (setup : ChainSetup) (fuel : Nat) (coin : Bool)
    (chain : BlockChain) (batch : List Block) :
    InsertSafe setup fuel coin chain batch ↔
      chain.Valid setup fuel batch ∨ chain.FirstRefused setup fuel coin batch := by
  constructor
  · intro safe
    by_cases valid : chain.Valid setup fuel batch
    · exact .inl valid
    · exact .inr (safe.firstRefused valid)
  · rintro (valid | refused)
    · exact valid.insertSafe
    · exact refused.insertSafe

end BlockChain

attribute [local instance] sampleEncoding emptyStateCrypto

def unsignedBlock : Block where
  header := sampleChild 1 131072
  transactions := [some { nonce := 0, gasPrice := 1, gas := 21000, recipient := some 0x22
                          value := 7, v := 0, r := 0, s := 0 }]

/-- Inserting a block that cannot be processed reports no error and makes the
block the head. -/
theorem unsigned_block_inserted :
    ∃ start after, sampleStart = some start ∧
      BlockChain.insertChain fakeSetup 4 false [unsignedBlock] start = .ok ((0, none), after) ∧
      after.currentBlock = unsignedBlock ∧
      ¬BlockChain.InsertSafe fakeSetup 4 false start [unsignedBlock] := by
  have opened : sampleStart.isSome = true := by decide +kernel
  rcases Option.isSome_iff_exists.mp opened with ⟨start, found⟩
  have inserted : sampleStart.any (fun start => Computation.returns
      (fun res after => res = (0, none) && after.currentBlock = unsignedBlock &&
        start.currentBlock.hash ≠ unsignedBlock.hash)
      (BlockChain.insertChain fakeSetup 4 false [unsignedBlock] start)) = true := by
    decide +kernel
  rw [found, Option.any_some] at inserted
  rcases Computation.exists_of_returns inserted with ⟨res, after, returned, tested⟩
  simp only [Bool.and_eq_true, decide_eq_true_eq] at tested
  rcases tested with ⟨⟨rfl, head⟩, other⟩
  refine ⟨start, after, found, returned, head, ?_⟩
  intro safe
  have adopts : start.Adopts after unsignedBlock := .inr ⟨by rw [head], other⟩
  rcases safe.adopted _ after returned unsignedBlock List.mem_cons_self adopts with
    ⟨front, accepted, shorter, -, -, valid⟩
  have only : [unsignedBlock] <+: front ++ [accepted] :=
    List.prefix_of_prefix_length_le (List.prefix_refl _) shorter (by simp)
  rcases valid.of_shorter only with
    impossible | ⟨parent, -, -, -, -, state, res, left, -, ran, -⟩
  · cases impossible
  · cases ran

end Octopus
