import Octopus.Entity.Block
import Octopus.Rlp.Fields

/-!
# Encodings of headers and transactions

A base fee that is missing is encoded like zero, so an encoded header decodes to its stored
form.  A legacy transaction is the list of its fields; the other types are a byte with the
type and the list.  An envelope of the access list type is accepted whatever it holds and
yields a transaction without contents.
-/

namespace Octopus

open Library

open Rlp FieldCodec

namespace Header

/-- The ranges of the fields as Go values: `uint64`s, and big integers whose
bytes fit into memory. -/
structure Fits (header : Header) : Prop where
  gasLimit : header.gasLimit < uint64Size
  gasUsed : header.gasUsed < uint64Size
  time : header.time < uint64Size
  difficulty : (Rlp.digits header.difficulty).length < maxAlloc
  number : (Rlp.digits header.number).length < maxAlloc
  baseFee : ∀ baseFee ∈ header.baseFee, (Rlp.digits baseFee).length < maxAlloc

def wire : FieldCodec (Hash × Hash × Address × Hash × Hash × Hash × Nat × Nat × Nat × Nat × Nat ×
    Bytes × Hash × BitVec 64 × Nat) :=
  (array 32).pair ((array 32).pair ((array 20).pair ((array 32).pair ((array 32).pair
    ((array 32).pair (bigNat.pair (bigNat.pair ((uint 8).pair ((uint 8).pair ((uint 8).pair
      (bytes.pair ((array 32).pair ((array 8).pair bigNat)))))))))))))

def fields : FieldCodec Header :=
  wire.via
    (fun header => (header.parentHash, header.uncleHash, header.coinbase, header.root,
      header.txHash, header.receiptHash, header.difficulty, header.number, header.gasLimit,
      header.gasUsed, header.time, header.extra, header.mixDigest, header.nonce,
      header.baseFee.getD 0))
    (fun (parentHash, uncleHash, coinbase, root, txHash, receiptHash, difficulty, number, gasLimit,
        gasUsed, time, extra, mixDigest, nonce, baseFee) =>
      { parentHash, uncleHash, coinbase, root, txHash, receiptHash, difficulty, number, gasLimit,
        gasUsed, time, extra, mixDigest, nonce, baseFee := some baseFee })

def codec : FieldCodec Header :=
  structCodec fields

theorem Fits.feeOrZero {header : Header} (fits : header.Fits) :
    (Rlp.digits (header.baseFee.getD 0)).length < maxAlloc := by
  cases fee : header.baseFee with
  | none => decide
  | some baseFee => exact fits.baseFee baseFee fee

def sizeBound (header : Header) : Nat :=
  header.extra.length + 4 * maxAlloc

theorem stored_within {header : Header} (fits : header.Fits)
    (short : header.extra.length ≤ maxAlloc) :
    fields.CompletesWithin header.stored header.sizeBound := by
  have limit : maxAlloc = 2 ^ 48 := rfl
  have uint : ∀ {num : Nat}, num < uint64Size → (uint 8).CompletesWithin num 17 :=
    fun small => uint_within small (Stream.length_digits_le_eight small)
  have bigNat : ∀ {num : Nat}, (digits num).length < maxAlloc →
      bigNat.CompletesWithin num ((digits num).length + 9) :=
    fun small => bigNat_within (by omega)
  have hash : ∀ value : Hash, (array 32).CompletesWithin value 41 :=
    array_within 32 (by omega) (by omega)
  have addr : ∀ value : Address, (array 20).CompletesWithin value 29 :=
    array_within 20 (by omega) (by omega)
  have nonce : ∀ value : BitVec 64, (array 8).CompletesWithin value 17 :=
    array_within 8 (by omega) (by omega)
  have extra := @bytes_within header.extra (by omega)
  have difficulty := fits.difficulty
  have num := fits.number
  have fee : (digits (header.stored.baseFee.getD 0)).length < maxAlloc := fits.feeOrZero
  have within : fields.CompletesWithin header.stored _ :=
    Codec.CompletesWithin.via ((hash _).pair ((hash _).pair ((addr _).pair ((hash _).pair
      ((hash _).pair ((hash _).pair ((bigNat difficulty).pair ((bigNat num).pair
        ((uint fits.gasLimit).pair ((uint fits.gasUsed).pair ((uint fits.time).pair (extra.pair
          ((hash _).pair ((nonce _).pair (bigNat fee))))))))))))))) rfl
  apply within.mono
  rw [sizeBound]
  omega

end Header

variable {bytes text : Bytes}

structure LegacyTx where
  nonce : BitVec 64
  gasPrice : Int
  gas : BitVec 64
  recipient : Option Address
  value : Int
  data : Bytes
  v : Int
  r : Int
  s : Int
  deriving DecidableEq

variable {tx : LegacyTx}

structure DynamicFeeTx where
  chainID : Int
  nonce : BitVec 64
  gasTipCap : Int
  gasFeeCap : Int
  gas : BitVec 64
  recipient : Option Address
  value : Int
  data : Bytes
  v : Int
  r : Int
  s : Int
  deriving DecidableEq

/-- The implementations of `TxData`; there is none for access lists. -/
inductive TxData where
  | legacy (tx : LegacyTx)
  | dynamicFee (tx : DynamicFeeTx)
  deriving DecidableEq

variable {inner : TxData}

def legacyTxType : Byte := 0

def accessListTxType : Byte := 1

def dynamicFeeTxType : Byte := 2

def TxData.txType : TxData → Byte
  | .legacy _ => legacyTxType
  | .dynamicFee _ => dynamicFeeTxType

inductive EnvelopeError where
  | shortTypedTx
  | typeNotSupported
  | negativeBigInt
  | rlp (error : DecodeError)
  deriving DecidableEq

def LegacyTx.fields : FieldCodec LegacyTx :=
  (uint64.pair (bigInt.pair (uint64.pair (FieldCodec.recipient.pair (bigInt.pair
    (FieldCodec.bytes.pair (bigInt.pair (bigInt.pair bigInt)))))))).via
    (fun tx => (tx.nonce, tx.gasPrice, tx.gas, tx.recipient, tx.value, tx.data, tx.v, tx.r, tx.s))
    (fun (nonce, gasPrice, gas, recipient, value, data, v, r, s) =>
      ⟨nonce, gasPrice, gas, recipient, value, data, v, r, s⟩)

def LegacyTx.codec : FieldCodec LegacyTx :=
  structCodec LegacyTx.fields

def DynamicFeeTx.fields : FieldCodec DynamicFeeTx :=
  (bigInt.pair (uint64.pair (bigInt.pair (bigInt.pair (uint64.pair (FieldCodec.recipient.pair
    (bigInt.pair (FieldCodec.bytes.pair (bigInt.pair (bigInt.pair bigInt)))))))))).via
    (fun tx => (tx.chainID, tx.nonce, tx.gasTipCap, tx.gasFeeCap, tx.gas, tx.recipient, tx.value,
      tx.data, tx.v, tx.r, tx.s))
    (fun (chainID, nonce, gasTipCap, gasFeeCap, gas, recipient, value, data, v, r, s) =>
      ⟨chainID, nonce, gasTipCap, gasFeeCap, gas, recipient, value, data, v, r, s⟩)

def DynamicFeeTx.codec : FieldCodec DynamicFeeTx :=
  structCodec DynamicFeeTx.fields

def TxData.encode : TxData → Option Bytes
  | .legacy tx => encodeToBytes LegacyTx.codec tx
  | .dynamicFee tx => encodeToBytes DynamicFeeTx.codec tx

/-- `block.Transaction` with its contents, nil if it has none, and the size that
was recorded when it was decoded. -/
structure WireTransaction where
  inner : Option TxData
  size : Option Nat := none
  deriving DecidableEq

def setDecoded (inner : Option TxData) (size : Nat) : WireTransaction where
  inner := inner
  size := if 0 < size then some size else none

/-- `encodeTyped`, which appends to a buffer.  Nothing follows the type of a
transaction that cannot be encoded. -/
def TxData.encodeTyped (inner : TxData) (buffer : Bytes) : Bytes × Option EnvelopeError :=
  match inner.encode with
  | some text => (buffer ++ inner.txType :: text, none)
  | none => (buffer ++ [inner.txType], some .negativeBigInt)

def TxData.marshalBinary (inner : TxData) : Bytes × Option EnvelopeError :=
  if inner.txType = legacyTxType then
    match inner.encode with
    | some text => (text, none)
    | none => ([], some .negativeBigInt)
  else inner.encodeTyped []

def TxData.recipient : TxData → Option Address
  | .legacy tx => tx.recipient
  | .dynamicFee tx => tx.recipient

def TxData.nonce : TxData → BitVec 64
  | .legacy tx => tx.nonce
  | .dynamicFee tx => tx.nonce

/-- `Hash` of a transaction.  What cannot be encoded is hashed as far as it was
written. -/
def TxData.hash [Crypto] (inner : TxData) : Hash :=
  Crypto.keccak256 inner.marshalBinary.1

def WireTransaction.marshalBinary (tx : WireTransaction) :
    Except Fault (Bytes × Option EnvelopeError) :=
  match tx.inner with
  | none => .error nilDereference
  | some inner => .ok inner.marshalBinary

def decodeTyped (bytes : Bytes) : Except EnvelopeError (Option TxData) :=
  match bytes with
  | [] => .error .shortTypedTx
  | [_] => .error .shortTypedTx
  | first :: rest =>
    if first = accessListTxType then .ok none
    else if first = dynamicFeeTxType then
      match decodeBytes DynamicFeeTx.codec rest with
      | .error error => .error (.rlp error)
      | .ok tx => .ok (some (.dynamicFee tx))
    else .error .typeNotSupported

def unmarshalBinary (bytes : Bytes) : Except EnvelopeError WireTransaction :=
  if ∃ first ∈ bytes.head?, 0x7f < first.toNat then
    match decodeBytes LegacyTx.codec bytes with
    | .error error => .error (.rlp error)
    | .ok tx => .ok (setDecoded (some (.legacy tx)) bytes.length)
  else
    match decodeTyped bytes with
    | .error error => .error error
    | .ok inner => .ok (setDecoded inner bytes.length)

/-- `Transactions.EncodeIndex`, which drops the error. -/
def encodeIndex (txs : List WireTransaction) (index : Nat) (buffer : Bytes) : Except Fault Bytes :=
  match txs[index]? with
  | none => .error (.panic "index out of range")
  | some tx =>
    match tx.inner with
    | none => .error nilDereference
    | some inner => .ok (inner.encodeTyped buffer).1

def TxData.bigInts : TxData → List Int
  | .legacy tx => [tx.gasPrice, tx.value, tx.v, tx.r, tx.s]
  | .dynamicFee tx => [tx.chainID, tx.gasTipCap, tx.gasFeeCap, tx.value, tx.v, tx.r, tx.s]

def TxData.data : TxData → Bytes
  | .legacy tx => tx.data
  | .dynamicFee tx => tx.data

def TxData.WellFormed (inner : TxData) : Prop :=
  ∀ number ∈ inner.bigInts, 0 ≤ number

/-- The data and the numbers are no larger than the memory that the Go runtime
can allocate for each of them. -/
structure TxData.Fits (inner : TxData) : Prop where
  data : inner.data.length ≤ maxAlloc
  bigInts : ∀ number ∈ inner.bigInts, (digits number.toNat).length ≤ maxAlloc

instance (inner : TxData) : Decidable inner.WellFormed :=
  inferInstanceAs (Decidable (∀ number ∈ inner.bigInts, 0 ≤ number))

theorem encode_isSome_iff (inner : TxData) : inner.encode.isSome ↔ inner.WellFormed := by
  cases inner with
  | legacy =>
    simp [TxData.encode, encodeToBytes, LegacyTx.codec, structCodec, Codec.framed,
      LegacyTx.fields, Codec.via, Codec.pair_write_isSome, bigInt_write_isSome,
      TxData.WellFormed, TxData.bigInts, uint64, bytes, recipient]
  | dynamicFee =>
    simp [TxData.encode, encodeToBytes, DynamicFeeTx.codec, structCodec, Codec.framed,
      DynamicFeeTx.fields, Codec.via, Codec.pair_write_isSome, bigInt_write_isSome,
      TxData.WellFormed, TxData.bigInts, uint64, bytes, recipient]

theorem bigInt_fields (wellFormed : inner.WellFormed) (fits : inner.Fits) :
    ∀ number ∈ inner.bigInts, bigInt.CompletesWithin number (maxAlloc + 9) := by
  intro number mem
  have limit : maxAlloc = 2 ^ 48 := rfl
  have small := fits.bigInts number mem
  exact (bigInt_within (wellFormed number mem) (by omega)).mono (by omega)

theorem bytes_field {text : Bytes} (small : text.length ≤ maxAlloc) :
    FieldCodec.bytes.CompletesWithin text (maxAlloc + 9) := by
  have limit : maxAlloc = 2 ^ 48 := rfl
  exact (bytes_within (by omega)).mono (by omega)

theorem legacy_completes (wellFormed : (TxData.legacy tx).WellFormed)
    (fits : (TxData.legacy tx).Fits) : LegacyTx.codec.Completes tx := by
  have field := bigInt_fields wellFormed fits
  simp only [TxData.bigInts, List.forall_mem_cons] at field
  rcases field with ⟨gasPrice, value, v, r, s, -⟩
  have data := bytes_field fits.data
  have nonce := uint64_within tx.nonce
  have gas := uint64_within tx.gas
  have recipient := recipient_within tx.recipient
  have within : LegacyTx.fields.CompletesWithin tx _ :=
    Codec.CompletesWithin.via (nonce.pair (gasPrice.pair (gas.pair (recipient.pair (value.pair
      (data.pair (v.pair (r.pair s)))))))) rfl
  exact (structCodec_within within (by decide)).completes

theorem dynamicFee_completes {tx : DynamicFeeTx} (wellFormed : (TxData.dynamicFee tx).WellFormed)
    (fits : (TxData.dynamicFee tx).Fits) : DynamicFeeTx.codec.Completes tx := by
  have field := bigInt_fields wellFormed fits
  simp only [TxData.bigInts, List.forall_mem_cons] at field
  rcases field with ⟨chainID, gasTipCap, gasFeeCap, value, v, r, s, -⟩
  have data := bytes_field fits.data
  have nonce := uint64_within tx.nonce
  have gas := uint64_within tx.gas
  have recipient := recipient_within tx.recipient
  have within : DynamicFeeTx.fields.CompletesWithin tx _ :=
    Codec.CompletesWithin.via (chainID.pair (nonce.pair (gasTipCap.pair (gasFeeCap.pair
      (gas.pair (recipient.pair (value.pair (data.pair (v.pair (r.pair s)))))))))) rfl
  exact (structCodec_within within (by decide)).completes

theorem legacy_exact : LegacyTx.codec.Exact := by
  apply Codec.Exact.framed _ listFrame_exact
  apply Codec.Exact.via
  · exact uint64_exact.pair (bigInt_exact.pair (uint64_exact.pair (recipient_exact.pair
      (bigInt_exact.pair (bytes_exact.pair (bigInt_exact.pair (bigInt_exact.pair bigInt_exact)))))))
  · intro _
    rfl

theorem dynamicFee_exact : DynamicFeeTx.codec.Exact := by
  apply Codec.Exact.framed _ listFrame_exact
  apply Codec.Exact.via
  · exact bigInt_exact.pair (uint64_exact.pair (bigInt_exact.pair (bigInt_exact.pair
      (uint64_exact.pair (recipient_exact.pair (bigInt_exact.pair (bytes_exact.pair
        (bigInt_exact.pair (bigInt_exact.pair bigInt_exact)))))))))
  · intro _
    rfl

theorem encode_legacy_of_decodeBytes (decoded : decodeBytes LegacyTx.codec bytes = .ok tx) :
    (TxData.legacy tx).encode = some bytes :=
  encodeToBytes_of_decodeBytes legacy_exact decoded

theorem encode_dynamicFee_of_decodeBytes {tx : DynamicFeeTx}
    (decoded : decodeBytes DynamicFeeTx.codec bytes = .ok tx) :
    (TxData.dynamicFee tx).encode = some bytes :=
  encodeToBytes_of_decodeBytes dynamicFee_exact decoded

theorem marshalBinary_of_encode (encoded : inner.encode = some text) :
    inner.marshalBinary =
      (if inner.txType = legacyTxType then text else inner.txType :: text, none) := by
  simp only [TxData.marshalBinary, TxData.encodeTyped, encoded]
  split_ifs <;> rfl

theorem marshalBinary_error_iff (inner : TxData) :
    inner.marshalBinary.2 = none ↔ inner.WellFormed := by
  rw [← encode_isSome_iff]
  cases encoded : inner.encode with
  | none =>
    simp only [TxData.marshalBinary, TxData.encodeTyped, encoded]
    split_ifs <;> simp
  | some => simp [marshalBinary_of_encode encoded]

theorem head_list (payload : Bytes) : ∃ first ∈ (list payload).head?, 0x7f < first.toNat := by
  simp only [list, puthead]
  split_ifs with short
  · refine ⟨_, rfl, ?_⟩
    have tag : ((0xc0 : Byte) + BitVec.ofNat 8 payload.length).toNat = 0xc0 + payload.length :=
      toNat_tag 0xc0 (by omega)
    omega
  · refine ⟨_, rfl, ?_⟩
    have few : intsize payload.length ≤ 8 := by
      rw [intsize]
      split_ifs <;> omega
    have tag : ((0xf7 : Byte) + BitVec.ofNat 8 (intsize payload.length)).toNat =
        0xf7 + intsize payload.length :=
      toNat_tag 0xf7 (by omega)
    omega

theorem head_legacy (encoded : encodeToBytes LegacyTx.codec tx = some text) :
    ∃ first ∈ text.head?, 0x7f < first.toNat := by
  rcases Option.map_eq_some_iff.mp encoded with ⟨payload, -, rfl⟩
  exact head_list payload

theorem unmarshalBinary_marshalBinary (fits : inner.Fits) (wellFormed : inner.WellFormed) :
    ∃ bytes, inner.marshalBinary = (bytes, none) ∧
      unmarshalBinary bytes = .ok (setDecoded (some inner) bytes.length) := by
  cases inner with
  | legacy tx =>
    rcases decodeBytes_of_completes (legacy_completes wellFormed fits) with ⟨text, encoded, decoded⟩
    have wrote : (TxData.legacy tx).encode = some text := encoded
    refine ⟨text, marshalBinary_of_encode wrote, ?_⟩
    rw [unmarshalBinary, if_pos (head_legacy encoded), decoded]
  | dynamicFee tx =>
    rcases decodeBytes_of_completes (dynamicFee_completes wellFormed fits) with
      ⟨text, encoded, decoded⟩
    have wrote : (TxData.dynamicFee tx).encode = some text := encoded
    refine ⟨dynamicFeeTxType :: text, marshalBinary_of_encode wrote, ?_⟩
    have typed : decodeTyped (dynamicFeeTxType :: text) = .ok (some (.dynamicFee tx)) := by
      rcases text with _ | ⟨_, text⟩
      · simp [decodeBytes] at decoded
      · simp only [decodeTyped, decoded]
        rw [if_neg (by decide), if_pos trivial]
    have low : ¬ ∃ first ∈ (dynamicFeeTxType :: text).head?, 0x7f < first.toNat := by
      simp [dynamicFeeTxType]
    rw [unmarshalBinary, if_neg low, typed]

theorem unmarshalBinary_eq_ok {tx : WireTransaction} (accepted : unmarshalBinary bytes = .ok tx) :
    (∃ inner, tx.inner = some inner ∧ inner.marshalBinary = (bytes, none) ∧
        bytes.head? ≠ some accessListTxType) ∨
      (tx.inner = none ∧ bytes.head? = some accessListTxType) := by
  rw [unmarshalBinary] at accepted
  split_ifs at accepted with high
  · rcases decoded : decodeBytes LegacyTx.codec bytes with error | found
    · simp [decoded] at accepted
    simp only [decoded, Except.ok.injEq] at accepted
    subst accepted
    have encoded := encode_legacy_of_decodeBytes decoded
    refine .inl ⟨.legacy found, rfl, marshalBinary_of_encode encoded, ?_⟩
    rcases high with ⟨first, isFirst, above⟩
    rintro isAccessList
    rw [isAccessList] at isFirst
    cases isFirst
    simp [accessListTxType] at above
  · rcases typed : decodeTyped bytes with error | inner
    · simp [typed] at accepted
    simp only [typed, Except.ok.injEq] at accepted
    subst accepted
    match bytes with
    | [] => simp [decodeTyped] at typed
    | [_] => simp [decodeTyped] at typed
    | first :: second :: rest =>
      simp only [decodeTyped] at typed
      split_ifs at typed with isAccessList isDynamicFee
      · cases typed
        exact .inr ⟨rfl, by simp [isAccessList]⟩
      · rcases decoded : decodeBytes DynamicFeeTx.codec (second :: rest) with error | found
        · simp [decoded] at typed
        simp only [decoded, Except.ok.injEq] at typed
        subst typed
        have encoded := encode_dynamicFee_of_decodeBytes decoded
        refine .inl ⟨.dynamicFee found, rfl, ?_, by simpa using isAccessList⟩
        rw [marshalBinary_of_encode encoded, isDynamicFee]
        rfl

theorem encodeTyped_eq_iff (inner : TxData) (buffer : Bytes) :
    (inner.encodeTyped buffer).1 = buffer ++ inner.marshalBinary.1 ↔
      inner.txType ≠ legacyTxType := by
  cases inner with
  | legacy tx =>
    have isLegacy : (TxData.legacy tx).txType = legacyTxType := rfl
    cases encoded : (TxData.legacy tx).encode <;>
      simp [TxData.encodeTyped, TxData.marshalBinary, encoded, isLegacy]
  | dynamicFee tx =>
    have notLegacy : (TxData.dynamicFee tx).txType ≠ legacyTxType :=
      show dynamicFeeTxType ≠ legacyTxType by decide
    cases encoded : (TxData.dynamicFee tx).encode <;>
      simp [TxData.encodeTyped, TxData.marshalBinary, encoded, notLegacy]

/-- A transaction is read back from its binary form exactly if none of its numbers is negative;
an accepted string is the binary form of a well-formed transaction exactly if it does not
start with the type of access lists; and a list is encoded with the binary forms exactly of
the transactions that are not legacy ones. -/
theorem binary_form_iff {tx : WireTransaction} {inner : TxData} (isInner : tx.inner = some inner)
    (fits : inner.Fits) (bytes : Bytes) :
    ((∃ text back, tx.marshalBinary = .ok (text, none) ∧ unmarshalBinary text = .ok back ∧
        back.inner = tx.inner) ↔ inner.WellFormed) ∧
    (∀ accepted : WireTransaction, unmarshalBinary bytes = .ok accepted →
      ((∃ found, accepted.inner = some found ∧ found.WellFormed ∧
          accepted.marshalBinary = .ok (bytes, none)) ↔ bytes.head? ≠ some accessListTxType)) ∧
    (∀ (txs : List WireTransaction) (index : Nat) (buffer : Bytes), txs[index]? = some tx →
      ((∃ text error, tx.marshalBinary = .ok (text, error) ∧
          encodeIndex txs index buffer = .ok (buffer ++ text)) ↔ inner.txType ≠ legacyTxType)) := by
  refine ⟨⟨?_, ?_⟩, ?_, ?_⟩
  · rintro ⟨text, back, marshaled, -, -⟩
    simp only [WireTransaction.marshalBinary, isInner, Except.ok.injEq] at marshaled
    rw [← marshalBinary_error_iff, marshaled]
  · intro wellFormed
    rcases unmarshalBinary_marshalBinary fits wellFormed with ⟨text, marshaled, accepted⟩
    refine ⟨text, _, ?_, accepted, ?_⟩
    · simp [WireTransaction.marshalBinary, isInner, marshaled]
    · simp [setDecoded, isInner]
  · intro found accepted
    rcases unmarshalBinary_eq_ok accepted with
      ⟨content, isContent, marshaled, notAccessList⟩ | ⟨isNil, isAccessList⟩
    · have wellFormed : content.WellFormed := by rw [← marshalBinary_error_iff, marshaled]
      simp [WireTransaction.marshalBinary, isContent, marshaled, wellFormed, notAccessList]
    · simp [isNil, isAccessList]
  · intro txs index buffer isTx
    rw [← encodeTyped_eq_iff inner buffer]
    simp only [WireTransaction.marshalBinary, encodeIndex, isTx, isInner, Except.ok.injEq]
    constructor
    · rintro ⟨text, error, marshaled, encoded⟩
      rw [marshaled, encoded]
    · intro encoded
      exact ⟨_, _, rfl, encoded⟩

def sampleLegacyTx : LegacyTx where
  nonce := 0
  gasPrice := 1
  gas := 21000
  recipient := some 7
  value := 300
  data := []
  v := 0
  r := 0
  s := 0

theorem sample_binary_form_iff : (TxData.legacy sampleLegacyTx).Fits ∧
      ∃ bytes back, (⟨some (.legacy sampleLegacyTx), none⟩ : WireTransaction).marshalBinary =
          .ok (bytes, none) ∧
        unmarshalBinary bytes = .ok back ∧ back.inner = some (.legacy sampleLegacyTx) := by
  have fits : (TxData.legacy sampleLegacyTx).Fits := ⟨by decide, by decide +kernel⟩
  refine ⟨fits, ?_⟩
  have isInner : (⟨some (.legacy sampleLegacyTx), none⟩ : WireTransaction).inner =
      some (.legacy sampleLegacyTx) := rfl
  exact (binary_form_iff isInner fits []).1.mpr (by decide)

/-- An access list envelope is accepted and cannot be written again; a legacy transaction in a
list gets a byte in front. -/
theorem access_list_accepted_and_legacy_prefixed :
    unmarshalBinary [1, 0] = .ok ⟨none, some 2⟩ ∧
      (⟨none, some 2⟩ : WireTransaction).marshalBinary = .error nilDereference ∧
      ∃ bytes, (TxData.legacy sampleLegacyTx).marshalBinary = (bytes, none) ∧
        encodeIndex [⟨some (.legacy sampleLegacyTx), none⟩] 0 [] = .ok (0 :: bytes) := by
  refine ⟨by decide, rfl, (TxData.legacy sampleLegacyTx).marshalBinary.1, ?_, ?_⟩
  · decide +kernel
  · decide +kernel

end Octopus
