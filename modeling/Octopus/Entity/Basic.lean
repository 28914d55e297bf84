import Mathlib.Data.BitVec
import Mathlib.Data.Fintype.Prod
import Octopus.Library.Interaction

/-!
# Basic types

Bytes, addresses, hashes, machine words, the faults a Go program can stop with, and the
primitives that the repository takes from elsewhere.  Unsigned 64-bit quantities are
natural numbers; where the source can wrap around, the definition reduces modulo
`uint64Size`.  Values of `big.Int` are integers.
-/

namespace Octopus

abbrev Byte := BitVec 8

abbrev Bytes := List Byte

/-- `entity.Address`, twenty bytes. -/
abbrev Address := BitVec 160

instance addressLawfulBEq : LawfulBEq Address :=
  inferInstance

/-- `entity.Hash`, thirty-two bytes. -/
abbrev Hash := BitVec 256

abbrev Word := BitVec 256

def uint64Size : Nat := 2 ^ 64

/-- A call does not return: a Go panic with its message, or the bound on steps of the model. -/
inductive Fault where
  | panic (message : String)
  | outOfFuel
  deriving DecidableEq

def nilDereference : Fault :=
  .panic "invalid memory address or nil pointer dereference"

abbrev Go (State Value : Type) := Library.Computation Fault State Value

instance fintypeBitVec (width : Nat) : Fintype (BitVec width) :=
  Fintype.ofEquiv (Fin (2 ^ width))
    { toFun := BitVec.ofFin
      invFun := BitVec.toFin
      left_inv := fun _ => rfl
      right_inv := fun _ => rfl }

namespace Bytes

def toNat (bytes : Bytes) : Nat :=
  bytes.foldl (fun number byte => number * 256 + byte.toNat) 0

/-- `uint256.SetBytes`: the last thirty-two bytes, read big-endian. -/
def toWord (bytes : Bytes) : Word :=
  BitVec.ofNat 256 (toNat bytes)

/-- `entity.BytesToAddress`: the last twenty bytes. -/
def toAddress (bytes : Bytes) : Address :=
  BitVec.ofNat 160 (toNat bytes)

/-- `len` bytes from `start` on; positions past the end read zero. -/
def window (bytes : Bytes) (start length : Nat) : Bytes :=
  (List.range length).map fun offset => bytes.getD (start + offset) 0

end Bytes

def bigEndian {width : Nat} (value : BitVec width) (count : Nat) : Bytes :=
  (List.range count).map fun index => (value >>> (8 * (count - 1 - index))).setWidth 8

def wordBytes (word : Word) : Bytes :=
  bigEndian word 32

def addressBytes (address : Address) : Bytes :=
  bigEndian address 20

def wordAddress (word : Word) : Address :=
  word.setWidth 160

def addressWord (address : Address) : Word :=
  address.setWidth 256

/-- `uint256.FromBig`: two's complement modulo `2 ^ 256`. -/
def fromBig (value : Int) : Word :=
  BitVec.ofInt 256 value

structure StateAccount where
  nonce : Nat
  balance : Int
  root : Hash
  codeHash : Hash
  deriving DecidableEq

abbrev AccountTrie := Address → Option StateAccount

abbrev StorageTrie := Hash → Hash

/-- The primitives taken as given: hash functions, signature recovery, and the roots under which
the Merkle tries commit to their contents. -/
class Crypto where
  keccak256 : Bytes → Hash
  sha256 : Bytes → Hash
  ripemd160 : Bytes → BitVec 160
  /-- The address recovered from a digest, a recovery identifier and the two
  signature halves. -/
  ecrecover : Hash → Byte → Word → Word → Option Address
  accountRoot : AccountTrie → Hash
  storageRoot : StorageTrie → Hash

/-- Primitives for concrete runs.  The hash of the empty string is the true
one; the rest is left constant, for runs that do not depend on it. -/
@[reducible]
def sampleCrypto : Crypto where
  keccak256 bytes :=
    if bytes = [] then 0xc5d2460186f7233c927e7db2dcc703c0e500b653ca82273b7bfad8045d85a470 else 1
  sha256 _ := 0
  ripemd160 _ := 0
  ecrecover _ _ _ _ := none
  accountRoot _ := 0
  storageRoot _ := 0

def emptyRoot : Hash :=
  0x56e81f171bcc55a6ff8345e692c0f86e5b48e01b996cadc001622fb5e363b421

variable [Crypto]

def emptyCodeHash : Hash :=
  Crypto.keccak256 []

/-- The record of an account that holds a balance and nothing else. -/
def StateAccount.holding (balance : Int) : StateAccount :=
  ⟨0, balance, emptyRoot, emptyCodeHash⟩

def rlpUint (number : Nat) : Bytes :=
  let digits := (bigEndian (BitVec.ofNat 64 number) 8).dropWhile (· == 0)
  match digits with
  | [] => [0x80]
  | [digit] => if digit < 0x80 then [digit] else [0x81, digit]
  | _ => BitVec.ofNat 8 (0x80 + digits.length) :: digits

/-- `crypto.CreateAddress`: the low twenty bytes of the hash of the encoded
list of creator and nonce. -/
def createAddress (creator : Address) (nonce : Nat) : Address :=
  let payload := (0x94 : Byte) :: addressBytes creator ++ rlpUint nonce
  (Crypto.keccak256 (BitVec.ofNat 8 (0xc0 + payload.length) :: payload)).setWidth 160

def createAddress2 (creator : Address) (salt : Word) (initHash : Hash) : Address :=
  (Crypto.keccak256
    ((0xff : Byte) :: addressBytes creator ++ wordBytes salt ++ wordBytes initHash)).setWidth 160

end Octopus
