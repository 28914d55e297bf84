import Octopus.Entity.Block
import Octopus.Library.Store

/-!
# The chain tables of the key-value database

The key formats of the tables differ in length or in their first bytes, so keys of
different tables never meet.  A value is what its encoding decodes to, and a transaction
has no exported field.  There is no freezer behind the database.
-/

namespace Octopus

open Library

structure Body where
  transactions : List (Option Transaction) := []
  uncles : List Header := []
  deriving DecidableEq

def Body.stored (body : Body) : Body where
  transactions := body.transactions.map fun _ => none
  uncles := body.uncles.map Header.stored

def Block.body (block : Block) : Body where
  transactions := block.transactions
  uncles := block.uncles

def Header.withBody (header : Header) (body : Body) : Block where
  header := header
  uncles := body.uncles
  transactions := body.transactions

def Block.stored (block : Block) : Block :=
  block.header.stored.withBody block.body.stored

inductive DbKey where
  | header (number : Nat) (hash : Hash)
  | headerNumber (hash : Hash)
  | body (number : Nat) (hash : Hash)
  | td (number : Nat) (hash : Hash)
  | receipts (number : Nat) (hash : Hash)
  | canonical (number : Nat)
  | headBlock
  | headHeader
  | txLookup (hash : Hash)
  deriving DecidableEq

abbrev DbKey.Value : DbKey → Type
  | header _ _ => Header
  | headerNumber _ => Nat
  | body _ _ => Body
  | td _ _ => Nat
  | receipts _ _ => List Receipt
  | canonical _ => Hash
  | headBlock => Hash
  | headHeader => Hash
  | txLookup _ => Nat

def DbKey.isIndex : DbKey → Bool
  | canonical _ | headBlock | headHeader | txLookup _ => true
  | _ => false

def DbKey.isCanonical : DbKey → Bool
  | canonical _ | txLookup _ => true
  | _ => false

abbrev ChainDb := Store DbKey.Value

abbrev DbBatch := List (Write DbKey.Value)

namespace Rawdb

section

variable (db : ChainDb)

def readHeader (hash : Hash) (number : Nat) : Option Header :=
  db.lookup (.header number hash)

def readHeaderNumber (hash : Hash) : Option Nat :=
  db.lookup (.headerNumber hash)

def readBody (hash : Hash) (number : Nat) : Option Body :=
  db.lookup (.body number hash)

def readBlock (hash : Hash) (number : Nat) : Option Block :=
  match readHeader db hash number, readBody db hash number with
  | some header, some body => some (header.withBody body)
  | _, _ => none

def readTd (hash : Hash) (number : Nat) : Option Nat :=
  db.lookup (.td number hash)

/-- `ReadCanonicalHash`; the zero hash stands for no entry. -/
def readCanonicalHash (number : Nat) : Hash :=
  (db.lookup (.canonical number)).getD 0

def readHeadBlockHash : Hash :=
  (db.lookup .headBlock).getD 0

def readHeadHeaderHash : Hash :=
  (db.lookup .headHeader).getD 0

def readTxLookupEntry (hash : Hash) : Option Nat :=
  db.lookup (.txLookup hash)

end

variable [Encoding]

def writeTd (hash : Hash) (number td : Nat) : DbBatch :=
  [.put (.td number hash) td]

def writeBody (hash : Hash) (number : Nat) (body : Body) : DbBatch :=
  [.put (.body number hash) body.stored]

def writeHeader (header : Header) : DbBatch :=
  [.put (.headerNumber header.hash) header.numberU64,
    .put (.header header.numberU64 header.hash) header.stored]

def writeBlock (block : Block) : DbBatch :=
  writeBody block.hash block.numberU64 block.body ++ writeHeader block.header

def writeReceipts (hash : Hash) (number : Nat) (receipts : List Receipt) : DbBatch :=
  [.put (.receipts number hash) receipts]

def writeCanonicalHash (hash : Hash) (number : Nat) : DbBatch :=
  [.put (.canonical number) hash]

def writeHeadBlockHash (hash : Hash) : DbBatch :=
  [.put .headBlock hash]

def writeHeadHeaderHash (hash : Hash) : DbBatch :=
  [.put .headHeader hash]

def writeTxLookupEntriesByBlock (number : Nat) (hashes : List Hash) : DbBatch :=
  hashes.map fun hash => .put (.txLookup hash) number

/-- The writes that store a block: its total difficulty, its body and header, and
its receipts. -/
def blockBatch (block : Block) (receipts : List Receipt) (td : Nat) : DbBatch :=
  writeTd block.hash block.numberU64 td ++ writeBlock block ++
    writeReceipts block.hash block.numberU64 receipts

variable {db : ChainDb} {block : Block} {receipts : List Receipt} {td : Nat}

theorem key_of_mem_blockBatch {write : Write DbKey.Value}
    (mem : write ∈ blockBatch block receipts td) :
    write.key = .td block.numberU64 block.hash ∨ write.key = .body block.numberU64 block.hash ∨
      write.key = .headerNumber block.hash ∨ write.key = .header block.numberU64 block.hash ∨
      write.key = .receipts block.numberU64 block.hash := by
  simp only [blockBatch, writeTd, writeBlock, writeBody, writeHeader,
    writeReceipts, List.cons_append, List.nil_append, List.mem_cons, List.not_mem_nil,
    or_false] at mem
  rcases mem with rfl | rfl | rfl | rfl | rfl
  · exact .inl rfl
  · exact .inr (.inl rfl)
  · exact .inr (.inr (.inl rfl))
  · exact .inr (.inr (.inr (.inl rfl)))
  · exact .inr (.inr (.inr (.inr rfl)))

theorem lookup_index_blockBatch {key : DbKey} (index : key.isIndex = true) :
    (db.commit (blockBatch block receipts td)).lookup key = db.lookup key := by
  apply Store.lookup_commit_of_untouched
  intro _ mem same
  rcases key_of_mem_blockBatch mem with found | found | found | found | found
  all_goals
    rw [← same, found] at index
    cases index

theorem readHeaderNumber_blockBatch :
    readHeaderNumber (db.commit (blockBatch block receipts td)) block.hash =
      some block.numberU64 := by
  refine Store.lookup_commit_of_put_last (writeTd block.hash block.numberU64 td ++
    writeBody block.hash block.numberU64 block.body)
    (.put (.header block.header.numberU64 block.header.hash) block.header.stored ::
      writeReceipts block.hash block.numberU64 receipts) ?_
  simp [writeReceipts, Write.key]

theorem readTd_blockBatch :
    readTd (db.commit (blockBatch block receipts td)) block.hash block.numberU64 = some td := by
  refine Store.lookup_commit_of_put_last [] (writeBlock block ++
    writeReceipts block.hash block.numberU64 receipts) ?_
  simp [writeBlock, writeBody, writeHeader, writeReceipts, Write.key]

variable {num : Nat} {hash : Hash} (other : ¬(num = block.numberU64 ∧ hash = block.hash))
include other

theorem readTd_blockBatch_of_ne :
    readTd (db.commit (blockBatch block receipts td)) hash num = readTd db hash num := by
  apply Store.lookup_commit_of_untouched
  intro _ mem same
  exact other (by simpa [same] using key_of_mem_blockBatch mem)

omit other in
theorem readBlock_blockBatch :
    readBlock (db.commit (blockBatch block receipts td)) block.hash block.numberU64 =
      some block.stored := by
  have header : (db.commit (blockBatch block receipts td)).lookup
      (.header block.numberU64 block.hash) = some block.header.stored := by
    refine Store.lookup_commit_of_put_last (writeTd block.hash block.numberU64 td ++
      writeBody block.hash block.numberU64 block.body ++
      [.put (.headerNumber block.header.hash) block.header.numberU64])
      (writeReceipts block.hash block.numberU64 receipts) ?_
    simp [writeReceipts, Write.key]
  have body : (db.commit (blockBatch block receipts td)).lookup
      (.body block.numberU64 block.hash) = some block.body.stored := by
    refine Store.lookup_commit_of_put_last (writeTd block.hash block.numberU64 td)
      (writeHeader block.header ++ writeReceipts block.hash block.numberU64 receipts) ?_
    simp [writeHeader, writeReceipts, Write.key]
  simp [readBlock, readHeader, readBody, header, body, Block.stored]

theorem readBlock_blockBatch_of_ne :
    readBlock (db.commit (blockBatch block receipts td)) hash num = readBlock db hash num := by
  have header : (db.commit (blockBatch block receipts td)).lookup (.header num hash) =
      db.lookup (.header num hash) := by
    apply Store.lookup_commit_of_untouched
    intro write mem same
    exact other (by simpa [same] using key_of_mem_blockBatch mem)
  have body : (db.commit (blockBatch block receipts td)).lookup (.body num hash) =
      db.lookup (.body num hash) := by
    apply Store.lookup_commit_of_untouched
    intro write mem same
    exact other (by simpa [same] using key_of_mem_blockBatch mem)
  rw [readBlock, readBlock, readHeader, readHeader, readBody, readBody, header, body]

end Rawdb

end Octopus
