import Octopus.Entity.Envelope

/-!
# Signing transactions

`SignTx` and `Sender`.  A legacy transaction carries the chain in its `V` value, a dynamic
fee transaction in a field of its own.  The curve is a parameter: recovery undoes signing,
and recovers the key from a signature only for the hash that was signed.
-/

namespace Octopus

open Library Bytes List

open Rlp FieldCodec

variable {chainId v : Int} {sig : Bytes} {signed inner : TxData}

inductive SignerError where
  | invalidChainId
  | invalidSig
  | typeNotSupported
  | recovery
  | invalidPublicKey
  deriving DecidableEq

def secp256k1N : Nat :=
  0xfffffffffffffffffffffffffffffffebaaedce6af48a03bbfd25e8cd0364141

def secp256k1halfN : Nat :=
  secp256k1N / 2

structure Secp256k1 (Key : Type) where
  sign : Hash → Key → Bytes
  recoverPubkey : Hash → Bytes → Option Bytes
  publicKey : Key → Bytes

/-- Recovery undoes signing.  A signature is two halves in range, the second the lower one
possible, and the recovery identifier. -/
structure Secp256k1.Lawful {Key : Type} (curve : Secp256k1 Key) : Prop where
  sign_eq : ∀ hash key, ∃ r s : Bytes, ∃ v : Byte, curve.sign hash key = r ++ s ++ [v] ∧
    r.length = 32 ∧ s.length = 32 ∧ (v = 0 ∨ v = 1) ∧
    1 ≤ Bytes.toNat r ∧ Bytes.toNat r < secp256k1N ∧
    1 ≤ Bytes.toNat s ∧ Bytes.toNat s ≤ secp256k1halfN
  recovers : ∀ hash key, curve.recoverPubkey hash (curve.sign hash key) = some (curve.publicKey key)
  uncompressed : ∀ key, ∃ point, curve.publicKey key = 4 :: point

/-- `Uint64` of a `big.Int`, which ignores the sign. -/
def bigUint64 (number : Int) : Nat :=
  number.natAbs % uint64Size

def deriveChainId (v : Int) : Int :=
  if bitLen v.natAbs ≤ 64 then
    let v := bigUint64 v
    if v = 27 ∨ v = 28 then 0 else (((v + (uint64Size - 35)) % uint64Size / 2 : Nat) : Int)
  else (v - 35) / 2

def isProtectedV (v : Int) : Bool :=
  if bitLen v.natAbs ≤ 8 then
    let v := bigUint64 v
    v ≠ 27 && v ≠ 28 && v ≠ 1 && v ≠ 0
  else true

def TxData.chainID : TxData → Int
  | .legacy tx => deriveChainId tx.v
  | .dynamicFee tx => tx.chainID

/-- `decodeSignature`, without its `V`: the two halves as numbers. -/
def decodeSignature (sig : Bytes) : Int × Int :=
  (Bytes.toNat (sig.take 32), Bytes.toNat ((sig.drop 32).take 32))

def recoveryId (sig : Bytes) : Byte :=
  sig.getD 64 0

def validateSignatureValues (v : Byte) (r s : Int) (homestead : Bool) : Bool :=
  if r < 1 ∨ s < 1 then false
  else if homestead && secp256k1halfN < s then false
  else r < secp256k1N && s < secp256k1N && (v == 0 || v == 1)

def padded (length : Nat) (number : Int) : Bytes :=
  List.replicate (length - (digits number.natAbs).length) 0 ++ digits number.natAbs

section

variable [Crypto] {Key : Type} (curve : Secp256k1 Key)

def pointAddress (point : Bytes) : Address :=
  (Crypto.keccak256 point).setWidth 160

def Secp256k1.address (key : Key) : Address :=
  pointAddress (curve.publicKey key).tail

/-- A signature gives the address of its key for the hash that was signed, and for no other. -/
structure Secp256k1.Inverse : Prop extends curve.Lawful where
  binds : ∀ signed hash key point,
    curve.recoverPubkey hash (curve.sign signed key) = some (4 :: point) →
      pointAddress point = curve.address key → hash = signed

def recoverPlain (sighash : Hash) (r s vb : Int) (homestead : Bool) :
    Except SignerError Address :=
  if 8 < bitLen vb.natAbs then .error .invalidSig
  else
    let v := BitVec.ofNat 8 (bigUint64 vb + (uint64Size - 27))
    if !validateSignatureValues v r s homestead then .error .invalidSig
    else
      match curve.recoverPubkey sighash (padded 32 r ++ padded 32 s ++ [v]) with
      | none => .error .recovery
      | some [] => .error .invalidPublicKey
      | some (first :: point) =>
        if first ≠ 4 then .error .invalidPublicKey else .ok (pointAddress point)

/-- The hash of a list that is encoded after a text; what cannot be encoded adds
nothing. -/
def rlpHash {Value : Type} (front : Bytes) (fields : FieldCodec Value) (value : Value) : Hash :=
  Crypto.keccak256 (front ++ (encodeToBytes (structCodec fields) value).getD [])

def londonHash (chainId : Int) : TxData → Hash
  | .legacy tx =>
    rlpHash [] (uint64.pair (bigInt.pair (uint64.pair (recipient.pair (bigInt.pair (bytes.pair
      (bigInt.pair (uint64.pair uint64))))))))
      (tx.nonce, tx.gasPrice, tx.gas, tx.recipient, tx.value, tx.data, chainId, 0, 0)
  | .dynamicFee tx =>
    rlpHash [dynamicFeeTxType] (bigInt.pair (uint64.pair (bigInt.pair (bigInt.pair (uint64.pair
      (recipient.pair (bigInt.pair bytes)))))))
      (chainId, tx.nonce, tx.gasTipCap, tx.gasFeeCap, tx.gas, tx.recipient, tx.value, tx.data)

def homesteadHash (inner : TxData) : Hash :=
  inner.hash

def londonSender (chainId : Int) (inner : TxData) : Except SignerError Address :=
  match inner with
  | .legacy tx =>
    if !isProtectedV tx.v then recoverPlain curve (homesteadHash inner) tx.r tx.s tx.v true
    else if inner.chainID ≠ chainId then .error .invalidChainId
    else recoverPlain curve (londonHash chainId inner) tx.r tx.s (tx.v - 2 * chainId - 8) true
  | .dynamicFee tx =>
    if inner.chainID ≠ chainId then .error .invalidChainId
    else recoverPlain curve (londonHash chainId inner) tx.r tx.s (tx.v + 27) true

def withSignature (chainId : Int) (sig : Bytes) : TxData → Except SignerError TxData
  | .legacy tx =>
    let (r, s) := decodeSignature sig
    -- the identifier and the constants are added as bytes
    let v : Int :=
      if chainId ≠ 0 then ((recoveryId sig + 35).toNat : Int) + 2 * chainId
      else ((recoveryId sig + 27).toNat : Int)
    .ok (.legacy { tx with v := v, r := r, s := s })
  | .dynamicFee tx =>
    if tx.chainID ≠ 0 ∧ tx.chainID ≠ chainId then .error .invalidChainId
    else
      let (r, s) := decodeSignature sig
      .ok (.dynamicFee { tx with chainID := chainId, v := (recoveryId sig).toNat, r := r, s := s })

/-- A transaction with the sender that was derived last, and the chain of the
signer that derived it. -/
structure SenderCache where
  inner : TxData
  fromCache : Option (Int × Address) := none

/-- `SignTx`; the transaction that is returned has an empty cache. -/
def signTx (chainId : Int) (key : Key) (inner : TxData) : Except SignerError SenderCache :=
  match withSignature chainId (curve.sign (londonHash chainId inner) key) inner with
  | .error error => .error error
  | .ok signed => .ok { inner := signed }

def sender (chainId : Int) (tx : SenderCache) : Except SignerError Address × SenderCache :=
  let derived :=
    match londonSender curve chainId tx.inner with
    | .error error => (.error error, tx)
    | .ok address => (.ok address, { tx with fromCache := some (chainId, address) })
  match tx.fromCache with
  | none => derived
  | some (cached, address) => if cached = chainId then (.ok address, tx) else derived

/-- The answers of `Sender` to one call after the other, with signers of the given chains. -/
def senders : List Int → SenderCache → List (Except SignerError Address)
  | [], _ => []
  | chainId :: chainIds, tx =>
    (sender curve chainId tx).1 :: senders chainIds (sender curve chainId tx).2

end

variable {tx : SenderCache}

theorem deriveChainId_eq {id : Nat} (positive : 1 ≤ chainId) (few : id ≤ 1)
    (isV : v = 2 * chainId + 35 + id) : deriveChainId v = chainId := by
  subst isV
  rw [deriveChainId]
  split_ifs with narrow
  · have small := (bitLen_le_iff _ 64).mp narrow
    have size : uint64Size = 2 ^ 64 := rfl
    have same : bigUint64 (2 * chainId + 35 + id) = (2 * chainId + 35 + id).natAbs := by
      rw [bigUint64, size, Nat.mod_eq_of_lt small]
    rw [if_neg (by omega), size]
    omega
  · omega

theorem isProtectedV_of_le (large : 37 ≤ v) : isProtectedV v = true := by
  rw [isProtectedV]
  split_ifs with narrow
  · have small := (bitLen_le_iff _ 8).mp narrow
    have size : uint64Size = 2 ^ 64 := rfl
    have same : bigUint64 v = v.natAbs := by rw [bigUint64, Nat.mod_eq_of_lt (by omega)]
    simp only [Bool.and_eq_true, decide_eq_true_eq]
    omega
  · rfl

theorem toNat_replicate_append (count : Nat) (bytes : Bytes) :
    Bytes.toNat (replicate count 0 ++ bytes) = Bytes.toNat bytes := by
  induction count with
  | zero => rfl
  | succ _ ih =>
    rw [replicate_succ, cons_append, toNat_cons, ih]
    simp

theorem padded_toNat {bytes : Bytes} {length : Nat} (isLength : bytes.length = length) :
    padded length (Bytes.toNat bytes) = bytes := by
  have small := toNat_lt bytes
  have power : 2 ^ (8 * length) = 256 ^ length := by rw [Nat.pow_mul]
  have few : (digits (Bytes.toNat bytes)).length ≤ length := by
    rw [isLength, ← power] at small
    have bits := (bitLen_le_iff _ _).mpr small
    rw [length_digits]
    omega
  apply eq_of_toNat_eq
  · rw [padded, Int.natAbs_natCast, length_append, length_replicate]
    omega
  · rw [padded, Int.natAbs_natCast, toNat_replicate_append, toNat_digits]

theorem recoveryId_append {r s : Bytes} (rLength : r.length = 32) (sLength : s.length = 32)
    (v : Byte) : recoveryId (r ++ s ++ [v]) = v := by
  have length : (r ++ s).length = 64 := by simp [rLength, sLength]
  rw [recoveryId, getD_eq_getElem?_getD, getElem?_append_right (by omega), length]
  rfl

theorem recoveryId_sign {Key : Type} {curve : Secp256k1 Key} (lawful : curve.Lawful) (hash : Hash)
    (key : Key) : recoveryId (curve.sign hash key) = 0 ∨ recoveryId (curve.sign hash key) = 1 := by
  rcases lawful.sign_eq hash key with ⟨_, _, _, signed, rLength, sLength, isId, -⟩
  rw [signed, recoveryId_append rLength sLength]
  exact isId

theorem legacyV_eq {id : Byte} (isId : id = 0 ∨ id = 1) (chainId : Int) :
    ((id + 35).toNat : Int) + 2 * chainId = 2 * chainId + 35 + id.toNat ∧ id.toNat ≤ 1 := by
  rcases isId with rfl | rfl
  · rw [show ((0 : Byte) + 35).toNat = 35 from rfl, show (0 : Byte).toNat = 0 from rfl]
    omega
  · rw [show ((1 : Byte) + 35).toNat = 36 from rfl, show (1 : Byte).toNat = 1 from rfl]
    omega

section

variable [Crypto] {Key : Type} {curve : Secp256k1 Key}

def publicKeyAddress : Option Bytes → Except SignerError Address
  | none => .error .recovery
  | some [] => .error .invalidPublicKey
  | some (first :: point) =>
    if first ≠ 4 then .error .invalidPublicKey else .ok (pointAddress point)

theorem publicKeyAddress_eq_ok {recovered : Option Bytes} {addr : Address} :
    publicKeyAddress recovered = .ok addr ↔
      ∃ point, recovered = some (4 :: point) ∧ pointAddress point = addr := by
  rcases recovered with _ | _ | ⟨first, point⟩
  · simp [publicKeyAddress]
  · simp [publicKeyAddress]
  · simp only [publicKeyAddress, ne_eq, Option.some.injEq, cons.injEq]
    split_ifs with uncompressed
    · simp [uncompressed]
    · exact ⟨nofun, fun ⟨_, ⟨same, _⟩, _⟩ => absurd same uncompressed⟩

theorem recoverPlain_signature (lawful : curve.Lawful) (sighash hash : Hash) (key : Key)
    {r s vb : Int} (halves : decodeSignature (curve.sign hash key) = (r, s))
    (isV : vb = 27 + ((recoveryId (curve.sign hash key)).toNat : Int)) :
    recoverPlain curve sighash r s vb true =
      publicKeyAddress (curve.recoverPubkey sighash (curve.sign hash key)) := by
  rcases lawful.sign_eq hash key with
    ⟨rBytes, sBytes, v, signed, rLength, sLength, isId, rPositive, rSmall, sPositive, sLow⟩
  have halfN : secp256k1halfN < secp256k1N := by decide
  rw [signed] at halves isV ⊢
  have isR : r = Bytes.toNat rBytes := by
    simpa [decodeSignature, rLength] using (congrArg Prod.fst halves).symm
  have isS : s = Bytes.toNat sBytes := by
    have second := (congrArg Prod.snd halves).symm
    simpa [decodeSignature, ← sLength, rLength.trans sLength.symm] using second
  have isLast : recoveryId (rBytes ++ sBytes ++ [v]) = v := recoveryId_append rLength sLength v
  rw [isLast] at isV
  have narrow : ¬ 8 < bitLen vb.natAbs := by
    rw [not_lt, bitLen_le_iff, isV]
    rcases isId with rfl | rfl <;> decide
  have isByte : BitVec.ofNat 8 (bigUint64 vb + (uint64Size - 27)) = v := by
    rw [isV]
    rcases isId with rfl | rfl <;> decide
  have valid : validateSignatureValues v r s true = true := by
    rw [validateSignatureValues, if_neg (by omega), if_neg]
    · have rBelow : r < secp256k1N := by omega
      have sBelow : s < secp256k1N := by omega
      rcases isId with rfl | rfl <;> simp [rBelow, sBelow]
    · simp only [Bool.true_and, decide_eq_true_eq]
      omega
  simp only [recoverPlain]
  rw [if_neg narrow, isByte, if_neg (by simp [valid]), isR, isS, padded_toNat rLength,
    padded_toNat sLength]
  rfl

theorem recoverPlain_sign (lawful : curve.Lawful) (hash : Hash) (key : Key) {r s vb : Int}
    (halves : decodeSignature (curve.sign hash key) = (r, s))
    (isV : vb = 27 + ((recoveryId (curve.sign hash key)).toNat : Int)) :
    recoverPlain curve hash r s vb true = .ok (curve.address key) := by
  rcases lawful.uncompressed key with ⟨_, isPublic⟩
  rw [recoverPlain_signature lawful hash hash key halves isV, lawful.recovers, isPublic]
  simp [publicKeyAddress, Secp256k1.address, isPublic]

omit [Crypto] in
theorem chainID_withSignature (positive : 1 ≤ chainId)
    (isId : recoveryId sig = 0 ∨ recoveryId sig = 1)
    (attached : withSignature chainId sig inner = .ok signed) : signed.chainID = chainId := by
  cases inner with
  | legacy =>
    rcases legacyV_eq isId chainId with ⟨isV, few⟩
    simp only [withSignature, if_pos (show chainId ≠ 0 by omega), Except.ok.injEq] at attached
    subst attached
    exact deriveChainId_eq positive few isV
  | dynamicFee =>
    simp only [withSignature] at attached
    split_ifs at attached
    cases attached
    rfl

theorem londonSender_of_ne {other : Int} (positive : 1 ≤ chainId)
    (isId : recoveryId sig = 0 ∨ recoveryId sig = 1)
    (attached : withSignature chainId sig inner = .ok signed) (differs : other ≠ chainId) :
    londonSender curve other signed = .error .invalidChainId := by
  have chain := chainID_withSignature positive isId attached
  cases inner with
  | legacy =>
    rcases legacyV_eq isId chainId with ⟨_, _⟩
    simp only [withSignature, if_pos (show chainId ≠ 0 by omega), Except.ok.injEq] at attached
    subst attached
    have isProtected := isProtectedV_of_le
      (show 37 ≤ ((recoveryId sig + 35).toNat : Int) + 2 * chainId by omega)
    simp only [londonSender, isProtected, chain]
    simp [differs.symm]
  | dynamicFee =>
    simp only [withSignature] at attached
    split_ifs at attached
    cases attached
    simp only [londonSender, chain]
    simp [differs.symm]

theorem londonSender_self (lawful : curve.Lawful) (positive : 1 ≤ chainId) (key : Key)
    (attached : withSignature chainId (curve.sign (londonHash chainId inner) key) inner =
      .ok signed) : londonSender curve chainId signed = .ok (curve.address key) := by
  have isId := recoveryId_sign lawful (londonHash chainId inner) key
  have chain := chainID_withSignature positive isId attached
  have recovers : ∀ {vb : Int}, vb = 27 + ((recoveryId (curve.sign (londonHash chainId inner)
      key)).toNat : Int) → recoverPlain curve (londonHash chainId inner)
        (decodeSignature (curve.sign (londonHash chainId inner) key)).1
        (decodeSignature (curve.sign (londonHash chainId inner) key)).2 vb true =
      .ok (curve.address key) :=
    fun isV => recoverPlain_sign lawful (londonHash chainId inner) key rfl isV
  cases inner with
  | legacy tx =>
    rcases legacyV_eq isId chainId with ⟨isV, _⟩
    simp only [withSignature, if_pos (show chainId ≠ 0 by omega), Except.ok.injEq] at attached
    subst attached
    have isProtected := isProtectedV_of_le
      (show 37 ≤ ((recoveryId (curve.sign (londonHash chainId (.legacy tx)) key) + 35).toNat :
        Int) + 2 * chainId by omega)
    simp only [londonSender, isProtected, chain]
    simp only [Bool.not_true, ne_eq, not_true_eq_false]
    exact recovers (by omega)
  | dynamicFee =>
    simp only [withSignature] at attached
    split_ifs at attached
    cases attached
    simp only [londonSender, chain]
    simp only [ne_eq, not_true_eq_false]
    exact recovers (by omega)

def SenderCache.Holds (tx : SenderCache) (chainId : Int) (address : Address) : Prop :=
  tx.fromCache = none ∨ tx.fromCache = some (chainId, address)

section

variable {addr : Address} (holds : tx.Holds chainId addr)
  (accepts : londonSender curve chainId tx.inner = .ok addr)
include holds accepts

variable
  (rejects : ∀ other, other ≠ chainId → londonSender curve other tx.inner = .error .invalidChainId)
include rejects

/-- One call of `Sender`: the answer is that of the signer, and the cache keeps to
the chain whose signer accepts. -/
theorem sender_step (asked : Int) :
    (sender curve asked tx).1 = (if asked = chainId then .ok addr else .error .invalidChainId) ∧
      (sender curve asked tx).2.inner = tx.inner ∧
      (sender curve asked tx).2.Holds chainId addr := by
  by_cases same : asked = chainId
  · subst same
    rcases holds with empty | cached
    · simp [sender, empty, accepts, SenderCache.Holds]
    · simp [sender, cached, SenderCache.Holds]
  · rcases holds with empty | cached
    · simp [sender, empty, rejects asked same, same, SenderCache.Holds]
    · simp [sender, cached, rejects asked same, same, Ne.symm same, SenderCache.Holds]

theorem senders_eq (calls : List Int) :
    senders curve calls tx =
      calls.map fun asked => if asked = chainId then .ok addr else .error .invalidChainId := by
  induction calls generalizing tx with
  | nil => rfl
  | cons asked _ ih =>
    rcases sender_step holds accepts rejects asked with ⟨answer, same, kept⟩
    rw [senders, answer, map_cons, ih kept (by rw [same]; exact accepts)
      (by rw [same]; exact rejects)]

end

/-- A transaction that names no other chain is signed for a chain; from then on the London
signer of the chain answers every call with the address of the key and every other one
rejects it, in any order.  The chain is derived from `V` for identifiers of any size. -/
theorem signTx_senders (lawful : curve.Lawful) {chainId : Int} (positive : 1 ≤ chainId)
    (key : Key) {inner : TxData}
    (own : ∀ tx, inner = .dynamicFee tx → tx.chainID = 0 ∨ tx.chainID = chainId) :
    (∃ signed, signTx curve chainId key inner = .ok signed ∧
      ∀ calls : List Int, senders curve calls signed =
        calls.map fun asked =>
          if asked = chainId then .ok (curve.address key) else .error .invalidChainId) ∧
    deriveChainId (2 * chainId + 35) = chainId ∧ deriveChainId (2 * chainId + 36) = chainId := by
  refine ⟨?_, ?_, ?_⟩
  · have attaches : ∃ signed, withSignature chainId
        (curve.sign (londonHash chainId inner) key) inner = .ok signed := by
      cases inner with
      | legacy => exact ⟨_, rfl⟩
      | dynamicFee tx =>
        have accepted : ¬ (tx.chainID ≠ 0 ∧ tx.chainID ≠ chainId) := by
          have := own tx rfl
          tauto
        simp only [withSignature]
        rw [if_neg accepted]
        exact ⟨_, rfl⟩
    rcases attaches with ⟨signed, attached⟩
    have isId := recoveryId_sign lawful (londonHash chainId inner) key
    refine ⟨{ inner := signed }, by simp [signTx, attached], ?_⟩
    intro calls
    exact senders_eq (.inl rfl) (londonSender_self lawful positive key attached)
      (fun other differs => londonSender_of_ne positive isId attached differs) calls
  · exact deriveChainId_eq positive (Nat.zero_le 1) (by omega)
  · exact deriveChainId_eq positive (Nat.le_refl 1) (by omega)

end

section

variable [Crypto] {Key : Type} (curve : Secp256k1 Key)

def homesteadSender (inner : TxData) : Except SignerError Address :=
  match inner with
  | .legacy tx => recoverPlain curve (homesteadHash inner) tx.r tx.s tx.v true
  | .dynamicFee _ => .error .typeNotSupported

/-- `SignTx` with the Homestead signer, which has no chain. -/
def homesteadSignTx (key : Key) (inner : TxData) : Except SignerError TxData :=
  match inner with
  | .legacy _ => withSignature 0 (curve.sign (homesteadHash inner) key) inner
  | .dynamicFee _ => .error .typeNotSupported

inductive Signer where
  | homestead
  | eip155 (chainId : Int)
  | eip2930 (chainId : Int)
  | london (chainId : Int)

/-- `Sender` of the Homestead signer and of the later ones, which treat legacy
transactions alike. -/
def Signer.sender (signer : Signer) (inner : TxData) : Except SignerError Address :=
  match signer, inner with
  | .homestead, inner => homesteadSender curve inner
  | .eip155 _, .dynamicFee _ => .error .typeNotSupported
  | .eip2930 _, .dynamicFee _ => .error .typeNotSupported
  | .eip155 chainId, inner => londonSender curve chainId inner
  | .eip2930 chainId, inner => londonSender curve chainId inner
  | .london chainId, inner => londonSender curve chainId inner

variable {curve}

/-- A transaction that the Homestead signer has signed is sent by the owner of the key, in the
eyes of any signer, exactly if attaching the signature leaves the hash as it was: `Sender`
checks it against the hash of the signed transaction, which covers the signature. -/
theorem homestead_sender_iff (inverse : curve.Inverse) (key : Key) (tx : LegacyTx)
    (signer : Signer) :
    ∃ signed, homesteadSignTx curve key (.legacy tx) = .ok signed ∧
      (signer.sender curve signed = .ok (curve.address key) ↔
        homesteadHash signed = homesteadHash (.legacy tx)) := by
  have lawful := inverse.toLawful
  have isId := recoveryId_sign lawful (homesteadHash (.legacy tx)) key
  set sig := curve.sign (homesteadHash (.legacy tx)) key with isSig
  have isV : ((recoveryId sig + 27).toNat : Int) = 27 + ((recoveryId sig).toNat : Int) := by
    rcases isId with same | same <;> rw [same] <;> rfl
  have unprotected : isProtectedV ((recoveryId sig + 27).toNat : Int) = false := by
    rcases isId with same | same <;> rw [same] <;> rfl
  have recovered (sighash : Hash) := recoverPlain_signature lawful sighash _ key rfl isV
  set signed : LegacyTx := { tx with
    v := ((recoveryId sig + 27).toNat : Int)
    r := (decodeSignature sig).1
    s := (decodeSignature sig).2 } with isSigned
  have sent : signer.sender curve (.legacy signed) =
      publicKeyAddress (curve.recoverPubkey (homesteadHash (.legacy signed)) sig) := by
    rw [← recovered]
    cases signer with
    | homestead => rfl
    | eip155 | eip2930 | london =>
      simp only [Signer.sender, londonSender, isSigned, unprotected]
      rfl
  refine ⟨.legacy signed, rfl, ?_⟩
  rw [sent, publicKeyAddress_eq_ok]
  constructor
  · rintro ⟨point, recovers, owned⟩
    exact inverse.binds _ _ key point recovers owned
  · intro same
    rcases lawful.uncompressed key with ⟨point, isPublic⟩
    refine ⟨point, ?_, by rw [Secp256k1.address, isPublic, tail_cons]⟩
    rw [same, isSig, lawful.recovers, isPublic]

end

def leadingOne (bytes : Bytes) : Bytes :=
  List.replicate 15 0 ++ 1 :: bytes

theorem toNat_leadingOne {bytes : Bytes} (isLength : bytes.length = 16) :
    1 ≤ Bytes.toNat (leadingOne bytes) ∧ Bytes.toNat (leadingOne bytes) ≤ secp256k1halfN := by
  have small := toNat_lt bytes
  rw [leadingOne, toNat_replicate_append, toNat_cons, isLength] at *
  have half : 2 * 256 ^ 16 ≤ secp256k1halfN := by decide +kernel
  constructor <;> simp <;> omega

def hashHalves (hash : Hash) : Bytes :=
  leadingOne ((wordBytes hash).take 16) ++ leadingOne ((wordBytes hash).drop 16)

/-- Two keys; a signature is the halves of the hash, with the key as recovery identifier. -/
def hashCurve : Secp256k1 Bool where
  sign hash key := hashHalves hash ++ [if key then 1 else 0]
  recoverPubkey hash sig :=
    if sig.dropLast = hashHalves hash then some (publicKey (sig.getLast? = some 1)) else none
  publicKey := publicKey
where
  publicKey (key : Bool) : Bytes := 4 :: List.replicate 64 (if key then 1 else 0)

theorem hashHalves_injective : Function.Injective hashHalves := by
  intro hash other same
  simp only [hashHalves, leadingOne, append_assoc, cons_append] at same
  rcases append_inj (cons.inj (List.append_cancel_left same)).2 (by simp [length_wordBytes]) with
    ⟨front, rest⟩
  apply wordBytes_injective
  rw [← take_append_drop 16 (wordBytes hash), front,
    (cons.inj (List.append_cancel_left rest)).2, take_append_drop]

theorem hashCurve_inverse [Crypto] : hashCurve.Inverse where
  sign_eq hash key := by
    have length := length_wordBytes hash
    have first := toNat_leadingOne (show ((wordBytes hash).take 16).length = 16 by simp [length])
    have second := toNat_leadingOne (show ((wordBytes hash).drop 16).length = 16 by simp [length])
    have half : secp256k1halfN < secp256k1N := by decide
    exact ⟨_, _, _, rfl, by simp [leadingOne, length], by simp [leadingOne, length],
      by cases key <;> simp, first.1, by omega, second.1, second.2⟩
  recovers hash key := by cases key <;> simp [hashCurve]
  uncompressed _ := ⟨_, rfl⟩
  binds signed hash key point recovers _ := by
    by_contra differs
    have missed : hashHalves signed ≠ hashHalves hash :=
      fun same => differs (hashHalves_injective same).symm
    simp [hashCurve, missed] at recovers

theorem sample_signTx_senders :
    letI := sampleCrypto
    ∃ signed, signTx hashCurve (2 ^ 64) true (.legacy sampleLegacyTx) = .ok signed ∧
      senders hashCurve [7, 2 ^ 64, 7] signed =
        [.error .invalidChainId, .ok (hashCurve.address true), .error .invalidChainId] := by
  let := sampleCrypto
  have own : ∀ tx, TxData.legacy sampleLegacyTx = .dynamicFee tx →
      tx.chainID = 0 ∨ tx.chainID = 2 ^ 64 := by
    simp
  rcases (signTx_senders hashCurve_inverse.toLawful (by decide) true own).1 with
    ⟨signed, isSigned, answers⟩
  exact ⟨signed, isSigned, (answers [7, 2 ^ 64, 7]).trans (by simp)⟩

/-- Under a hash that does not tell the two transactions apart, the key is found. -/
theorem sample_homestead_sender :
    letI := sampleCrypto
    ∃ signed, homesteadSignTx hashCurve true (.legacy sampleLegacyTx) = .ok signed ∧
      Signer.homestead.sender hashCurve signed = .ok (hashCurve.address true) := by
  let := sampleCrypto
  rcases homestead_sender_iff hashCurve_inverse true sampleLegacyTx .homestead with
    ⟨signed, isSigned, answers⟩
  refine ⟨signed, isSigned, answers.mpr ?_⟩
  cases isSigned
  decide +kernel

@[reducible]
def endCrypto : Crypto :=
  { sampleCrypto with keccak256 := fun bytes => BitVec.ofNat 256 (Bytes.toNat bytes) }

/-- The hash tells the signed transaction from the unsigned one, so that no signer
recovers the key. -/
theorem homestead_sender_lost :
    letI := endCrypto
    hashCurve.Inverse ∧
    ∃ signed, homesteadSignTx hashCurve true (.legacy sampleLegacyTx) = .ok signed ∧
      [Signer.homestead, .eip155 1, .eip2930 1, .london 1].map (·.sender hashCurve signed) =
        List.replicate 4 (.error .recovery) :=
  ⟨@hashCurve_inverse endCrypto, _, rfl, by decide +kernel⟩

def foreignTx : DynamicFeeTx where
  chainID := 5
  nonce := 0
  gasTipCap := 1
  gasFeeCap := 1
  gas := 21000
  recipient := some 7
  value := 300
  data := []
  v := 0
  r := 0
  s := 0

theorem foreign_transaction_not_signed :
    letI := sampleCrypto
    signTx hashCurve 1 true (.dynamicFee foreignTx) = .error .invalidChainId := by
  rfl

end Octopus
