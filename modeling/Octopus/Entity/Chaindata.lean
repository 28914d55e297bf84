import Octopus.Entity.Envelope
import Octopus.Entity.Rawdb

/-!
# Blocks in the key-value database

The fields of a transaction are not exported, so the encoder writes an empty list for it
and the decoder returns a transaction without contents: a stored block keeps its header
and the number of its transactions only.  There is no freezer behind the database.
-/

namespace Octopus

open Library Header Codec

open Rlp

variable {Tx : Type} {header : Header}

def unitFields : FieldCodec Unit where
  write _ := some []
  read buffer := .ok ((), buffer)

def txCodec {Tx : Type} (blank : Tx) : FieldCodec Tx :=
  (structCodec unitFields).via (fun _ => ()) (fun _ => blank)

def bodyCodec {Tx : Type} (blank : Tx) : FieldCodec (List Tx × List Header) :=
  structCodec ((sliceCodec (txCodec blank)).pair (sliceCodec Header.codec))

theorem txCodec_within (blank : Tx) : (txCodec blank).CompletesWithin blank 1 := by
  refine ⟨⟨list [], rfl, list_ne_nil [], ?_⟩, ?_⟩
  · intro rest
    have unwrapped : Stream.list (list [] ++ rest) = .ok ([], rest) :=
      Stream.list_list (by simp) rest
    simp [txCodec, via, structCodec, framed, listFrame, unwrapped, unitFields]
  · intro _ wrote
    cases wrote
    decide

def Header.rlp (header : Header) : Bytes :=
  (encodeToBytes Header.codec header).getD []

theorem Header.codec_atMost (header : Header) : codec.AtMost header header.rlp.length := by
  intro _ wrote
  simp [rlp, encodeToBytes, wrote]

structure Header.Storable (header : Header) : Prop where
  fits : header.Fits
  extra : header.extra.length ≤ maxAlloc

theorem Header.Storable.completes (storable : header.Storable) : codec.Completes header.stored := by
  have limit : maxAlloc = 2 ^ 48 := rfl
  have short := storable.extra
  apply (structCodec_within (stored_within storable.fits short) _).completes
  rw [sizeBound]
  omega

theorem writeAll_txCodec (blank : Tx) (txs : List Tx) :
    (txCodec blank).writeAll (txs.map fun _ => blank) = (txCodec blank).writeAll txs := by
  rw [writeAll, writeAll, List.mapM_map]
  rfl

theorem writeAll_stored (uncles : List Header) :
    codec.writeAll (uncles.map Header.stored) = codec.writeAll uncles := by
  rw [writeAll, writeAll, List.mapM_map]
  rfl

theorem decode_body (blank : Tx) {txs : List Tx} {uncles : List Header}
    (storable : ∀ uncle ∈ uncles, uncle.Storable)
    (fits : txs.length + (uncles.map fun uncle => uncle.rlp.length).sum ≤ maxAlloc) :
    ∃ text, encodeToBytes (bodyCodec blank) (txs, uncles) = some text ∧ text ≠ [] ∧
      decode (bodyCodec blank) text = .ok (txs.map fun _ => blank, uncles.map Header.stored) := by
  have limit : maxAlloc = 2 ^ 48 := rfl
  have txsSize : ((txs.map fun _ => blank).map fun _ => 1).sum = txs.length := by simp
  have unclesSize : ((uncles.map Header.stored).map fun uncle => uncle.rlp.length).sum =
      (uncles.map fun uncle => uncle.rlp.length).sum := by
    rw [List.map_map]
    rfl
  have txWithin : ∀ tx ∈ txs.map fun _ => blank, (txCodec blank).CompletesWithin tx 1 := by
    intro tx mem
    rcases List.mem_map.mp mem with ⟨_, _, rfl⟩
    exact txCodec_within blank
  have uncleWithin : ∀ uncle ∈ uncles.map Header.stored,
      codec.CompletesWithin uncle uncle.rlp.length := by
    intro uncle mem
    rcases List.mem_map.mp mem with ⟨original, there, rfl⟩
    exact ⟨(storable original there).completes, original.stored.codec_atMost⟩
  have txsWithin := sliceCodec_within (fun _ => 1) txWithin (by omega)
  have unclesWithin := sliceCodec_within (fun uncle : Header => uncle.rlp.length) uncleWithin
    (by omega)
  have completes : (bodyCodec blank).Completes (txs.map fun _ => blank, uncles.map Header.stored) :=
    (structCodec_within (txsWithin.pair unclesWithin) (by omega)).completes
  rcases decode_of_completes completes with ⟨text, encoded, nonempty, decoded⟩
  refine ⟨text, ?_, nonempty, decoded⟩
  rw [← encoded]
  simp only [encodeToBytes, bodyCodec, structCodec, framed, pair, sliceCodec,
    sliced, writeAll_txCodec, writeAll_stored]

def encodeBlockNumber (number : Nat) : Bytes :=
  bigEndian (BitVec.ofNat 64 number) 8

def headerMark : Bytes := [0x01, 0x01]

def headerNumberMark : Bytes := [0x01, 0x10]

def receiptsMark : Bytes := [0x01, 0x04]

def bodyMark : Bytes := [0x01, 0x07]

def tableKey (mark : Bytes) (number : Nat) (hash : Hash) : Bytes :=
  mark ++ encodeBlockNumber number ++ wordBytes hash

def headerKey (number : Nat) (hash : Hash) : Bytes :=
  tableKey headerMark number hash

def blockBodyKey (number : Nat) (hash : Hash) : Bytes :=
  tableKey bodyMark number hash

def blockReceiptsKey (number : Nat) (hash : Hash) : Bytes :=
  tableKey receiptsMark number hash

def headerNumberKey (hash : Hash) : Bytes :=
  headerNumberMark ++ wordBytes hash

theorem tableKey_ne {mark other : Bytes} (differ : mark ≠ other)
    (length : mark.length = 2) (otherLength : other.length = 2) (number otherNumber : Nat)
    (hash otherHash : Hash) : tableKey mark number hash ≠ tableKey other otherNumber otherHash := by
  intro same
  apply differ
  have front := congrArg (List.take 2) same
  simpa [tableKey, length, otherLength] using front

abbrev KeyValueStore := Store fun _ : Bytes => Bytes

abbrev KeyValueBatch := List (Write fun _ : Bytes => Bytes)

structure WireBlock where
  header : Header
  transactions : List WireTransaction := []
  uncles : List Header := []
  deriving DecidableEq

variable {block : WireBlock}

def blankTransaction : WireTransaction where
  inner := none

def WireBlock.body (block : WireBlock) : List WireTransaction × List Header :=
  (block.transactions, block.uncles)

def WireBlock.numberU64 (block : WireBlock) : Nat :=
  block.header.numberU64

namespace KeyValue

def get (db : KeyValueStore) (key : Bytes) : Bytes :=
  (db.lookup key).getD []

def readValue {Value : Type} (codec : FieldCodec Value) (db : KeyValueStore) (key : Bytes) :
    Option Value :=
  let data := get db key
  if data = [] then none
  else
    match decode codec data with
    | .error _ => none
    | .ok value => some value

/-- The write of an encoded value; nothing is stored for one that cannot be
encoded. -/
def putValue {Value : Type} (codec : FieldCodec Value) (key : Bytes) (value : Value) :
    Write fun _ : Bytes => Bytes :=
  .put key ((encodeToBytes codec value).getD [])

def readHeader (db : KeyValueStore) (hash : Hash) (number : Nat) : Option Header :=
  readValue Header.codec db (headerKey number hash)

def readBody (db : KeyValueStore) (hash : Hash) (number : Nat) :
    Option (List WireTransaction × List Header) :=
  readValue (bodyCodec blankTransaction) db (blockBodyKey number hash)

/-- `ReadBlock`, with `NewBlockWithHeader` and `WithBody`. -/
def readBlock (db : KeyValueStore) (hash : Hash) (number : Nat) : Option WireBlock :=
  match readHeader db hash number with
  | none => none
  | some header =>
    match readBody db hash number with
    | none => none
    | some (transactions, uncles) => some { header, transactions, uncles }

def writeBody (hash : Hash) (number : Nat) (body : List WireTransaction × List Header) :
    KeyValueBatch :=
  [putValue (bodyCodec blankTransaction) (blockBodyKey number hash) body]

section

variable [Crypto]

def headerHash (header : Header) : Hash :=
  Crypto.keccak256 header.rlp

def writeHeader (header : Header) : KeyValueBatch :=
  [.put (headerNumberKey (headerHash header)) (encodeBlockNumber header.numberU64),
    putValue Header.codec (headerKey header.numberU64 (headerHash header)) header]

def blockHash (block : WireBlock) : Hash :=
  headerHash block.header

def writeBlock (block : WireBlock) : KeyValueBatch :=
  writeBody (blockHash block) block.numberU64 block.body ++ writeHeader block.header

end

section

variable {Value : Type} {codec : FieldCodec Value} {key text : Bytes} {value : Value}

theorem putValue_eq (encoded : encodeToBytes codec value = some text) :
    putValue codec key value = .put key text := by
  simp [putValue, encoded]

theorem readValue_of_lookup {db : KeyValueStore} (found : db.lookup key = some text) (nonempty : text ≠ [])
    (decoded : decode codec text = .ok value) : readValue codec db key = some value := by
  simp [readValue, get, found, nonempty, decoded]

end

def stored (block : WireBlock) : WireBlock where
  header := block.header.stored
  transactions := block.transactions.map fun _ => blankTransaction
  uncles := block.uncles.map Header.stored

/-- The headers of the block and the encoding of its body fit into memory. -/
structure Fits (block : WireBlock) : Prop where
  header : block.header.Storable
  uncles : ∀ uncle ∈ block.uncles, uncle.Storable
  body : block.transactions.length +
    (block.uncles.map fun uncle => uncle.rlp.length).sum ≤ maxAlloc

section

variable [Crypto]

theorem readBody_writeBlock (fits : Fits block) (db : KeyValueStore) :
    readBody (db.commit (writeBlock block)) (blockHash block) block.numberU64 =
      some ((stored block).transactions, (stored block).uncles) := by
  rcases decode_body blankTransaction fits.uncles fits.body with ⟨text, encoded, nonempty, decoded⟩
  apply readValue_of_lookup _ nonempty decoded
  rw [writeBlock, writeBody, WireBlock.body, putValue_eq encoded]
  refine Store.lookup_commit_of_put_last [] (writeHeader block.header) ?_
  intro _ mem
  simp only [writeHeader, List.mem_cons, List.not_mem_nil, or_false] at mem
  rcases mem with rfl | rfl
  · intro same
    have lengths := congrArg List.length same
    simp [Write.key, headerNumberKey, headerNumberMark, blockBodyKey, tableKey,
      encodeBlockNumber] at lengths
  · exact tableKey_ne (by decide) rfl rfl _ _ _ _

theorem readHeader_writeBlock (fits : Fits block) (db : KeyValueStore) :
    readHeader (db.commit (writeBlock block)) (blockHash block) block.numberU64 =
      some block.header.stored := by
  rcases decode_of_completes fits.header.completes with ⟨text, encoded, nonempty, decoded⟩
  apply readValue_of_lookup _ nonempty decoded
  have same : encodeToBytes codec block.header = some text := encoded
  rw [writeBlock, writeHeader, putValue_eq same]
  refine Store.lookup_commit_of_put_last (writeBody (blockHash block) block.numberU64 block.body ++
      [.put (headerNumberKey (headerHash block.header))
        (encodeBlockNumber block.header.numberU64)]) [] ?_
  simp

theorem readBlock_writeBlock (fits : Fits block) (db : KeyValueStore) :
    readBlock (db.commit (writeBlock block)) (blockHash block) block.numberU64 =
      some (stored block) := by
  simp only [readBlock, readHeader_writeBlock fits, readBody_writeBlock fits]
  rfl

theorem blockHash_stored (block : WireBlock) : blockHash (stored block) = blockHash block :=
  rfl

end

theorem stored_eq_iff : header.stored = header ↔ header.baseFee ≠ none := by
  rcases header with ⟨⟩
  rename_i baseFee
  cases baseFee <;> simp [Header.stored]

theorem map_stored_eq_iff {headers : List Header} :
    headers.map Header.stored = headers ↔ ∀ header ∈ headers, header.baseFee ≠ none := by
  induction headers with
  | nil => simp
  | cons _ _ ih => simp [ih, stored_eq_iff]

/-- A block of signed transactions is read back with the same header hash, transactions and
uncles exactly if it has no transactions and every uncle has a base fee. -/
theorem readBlock_writeBlock_iff [Crypto] {block : WireBlock} (fits : Fits block)
    (signed : ∀ tx ∈ block.transactions, tx.inner ≠ none) (db : KeyValueStore) :
    (∃ back, readBlock (db.commit (writeBlock block)) (blockHash block) block.numberU64 =
        some back ∧ blockHash back = blockHash block ∧
      back.transactions.map WireTransaction.inner = block.transactions.map WireTransaction.inner ∧
      back.uncles = block.uncles) ↔
    block.transactions = [] ∧ ∀ uncle ∈ block.uncles, uncle.baseFee ≠ none := by
  rw [readBlock_writeBlock fits]
  constructor
  · rintro ⟨back, isBack, -, sameTransactions, sameUncles⟩
    cases isBack
    refine ⟨?_, ?_⟩
    · rcases isTransactions : block.transactions with _ | ⟨tx, _⟩
      · rfl
      · simp only [stored, isTransactions, List.map_cons, List.cons.injEq] at sameTransactions
        exact absurd sameTransactions.1.symm (signed tx (by simp [isTransactions]))
    · intro uncle mem
      exact map_stored_eq_iff.mp sameUncles uncle mem
  · rintro ⟨uncleless, fees⟩
    refine ⟨_, rfl, blockHash_stored block, ?_, ?_⟩
    · simp [stored, uncleless]
    · exact map_stored_eq_iff.mpr fees

def sampleHeader : Header where
  number := 1
  gasLimit := 30000000
  baseFee := some 0

theorem sampleHeader_storable : sampleHeader.Storable where
  fits := ⟨by decide, by decide, by decide, by decide +kernel, by decide +kernel, by decide +kernel⟩
  extra := by decide

def sampleBlock : WireBlock where
  header := sampleHeader
  transactions := [⟨some (.legacy sampleLegacyTx), none⟩]

theorem sampleBlock_fits : Fits sampleBlock where
  header := sampleHeader_storable
  uncles := by simp [sampleBlock]
  body := by decide

theorem sample_readBlock_writeBlock_iff :
    letI := sampleCrypto
    ∃ back, readBlock (Store.empty.commit (writeBlock
          { header := sampleHeader, uncles := [sampleHeader] }))
        (blockHash { header := sampleHeader, uncles := [sampleHeader] }) 1 = some back ∧
      back.transactions = [] ∧ back.uncles = [sampleHeader] := by
  let := sampleCrypto
  have fits : Fits { header := sampleHeader, uncles := [sampleHeader] } :=
    ⟨sampleHeader_storable, by simp [sampleHeader_storable], by decide +kernel⟩
  rcases (readBlock_writeBlock_iff fits (by simp) Store.empty).mpr
    ⟨rfl, by simp [sampleHeader]⟩ with ⟨back, isBack, -, transactions, uncles⟩
  exact ⟨back, isBack, by simpa using transactions, uncles⟩

theorem stored_transaction_is_blank :
    letI := sampleCrypto
    readBlock (Store.empty.commit (writeBlock sampleBlock)) (blockHash sampleBlock) 1 =
      some { sampleBlock with transactions := [⟨none, none⟩] } := by
  let := sampleCrypto
  exact readBlock_writeBlock sampleBlock_fits Store.empty

end KeyValue

end Octopus
