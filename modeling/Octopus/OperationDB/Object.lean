import Mathlib.Data.List.AList
import Octopus.Entity.Basic

/-!
# Account objects

The cached form of one account: its record, its code once loaded, and the layers of
storage writes.  An object is kept under its address, which is no field of the record.
Opening a trie under the zero hash or under `emptyRoot` gives the empty trie.
-/

namespace Octopus

abbrev Storage := AList fun _ : Hash => Hash

structure Database where
  accountTries : Hash → Option AccountTrie := fun _ => none
  storageTries : Hash → Option StorageTrie := fun _ => none
  codes : Hash → Option Bytes := fun _ => none

namespace Database

def openTrie (database : Database) (root : Hash) : Option AccountTrie :=
  if root = 0 ∨ root = emptyRoot then some fun _ => none else database.accountTries root

def openStorageTrie (database : Database) (root : Hash) : Option StorageTrie :=
  if root = 0 ∨ root = emptyRoot then some fun _ => 0 else database.storageTries root

/-- `cachingDB.ContractCode`; code of length zero counts as not found. -/
def contractCode (database : Database) (codeHash : Hash) : Option Bytes :=
  match database.codes codeHash with
  | some (byte :: rest) => some (byte :: rest)
  | _ => none

end Database

def emptyDatabase : Database where
  accountTries _ := none
  storageTries _ := none
  codes _ := none

/-- The errors remembered by state objects and by the state database. -/
inductive StateError where
  | createStorageTrie (root : Hash)
  | loadCodeSize (codeHash : Hash)
  | updateStateObject (address : Address)
  deriving DecidableEq

structure OperationObject where
  data : StateAccount
  dbErr : Option StateError := none
  trie : Option StorageTrie := none
  code : Option Bytes := none
  originStorage : Storage := ∅
  pendingStorage : Storage := ∅
  dirtyStorage : Storage := ∅
  fakeStorage : Option Storage := none
  dirtyCode : Bool := false
  suicided : Bool := false
  deleted : Bool := false

@[ext]
structure Account where
  nonce : Nat
  balance : Int
  codeHash : Hash
  code : Bytes
  storage : Hash → Hash

namespace OperationObject

variable [Crypto] (object : OperationObject) (database : Database)

def ofAccount (data : StateAccount) : OperationObject where
  data := { data with root := if data.root = 0 then emptyRoot else data.root }

/-- `newObject` on the blank record: the source gives it a balance of
200000000. -/
def blank : OperationObject where
  data := { nonce := 0, balance := 200000000, root := emptyRoot, codeHash := emptyCodeHash }

def empty : Bool :=
  object.data.nonce == 0 && object.data.balance == 0 && object.data.codeHash == emptyCodeHash

def setError (error : StateError) : OperationObject :=
  { object with dbErr := object.dbErr.or (some error) }

/-- `Code`: the cached code, or the stored one, which is then cached. -/
def getCode : Bytes × OperationObject :=
  match object.code with
  | some code => (code, object)
  | none =>
    if object.data.codeHash = emptyCodeHash then ([], object)
    else
      match database.contractCode object.data.codeHash with
      | some code => (code, { object with code := some code })
      | none => ([], object)

def codeSize : Nat × OperationObject :=
  match object.code with
  | some code => (code.length, object)
  | none =>
    if object.data.codeHash = emptyCodeHash then (0, object)
    else
      match database.contractCode object.data.codeHash with
      | some code => (code.length, object)
      | none => (0, object.setError (.loadCodeSize object.data.codeHash))

/-- `getTrie`: the storage trie, opened on first use; a root that cannot be
opened is replaced by the empty trie. -/
def getTrie : StorageTrie × OperationObject :=
  match object.trie with
  | some trie => (trie, object)
  | none =>
    match database.openStorageTrie object.data.root with
    | some trie => (trie, { object with trie := some trie })
    | none =>
      (fun _ => 0, { object with trie := some fun _ => 0 }.setError
        (.createStorageTrie object.data.root))

def getCommittedState (key : Hash) : Hash × OperationObject :=
  match object.fakeStorage with
  | some fake => ((fake.lookup key).getD 0, object)
  | none =>
    match object.pendingStorage.lookup key with
    | some value => (value, object)
    | none =>
      match object.originStorage.lookup key with
      | some value => (value, object)
      | none =>
        let (trie, object) := object.getTrie database
        (trie key, object)

def getState (key : Hash) : Hash × OperationObject :=
  match object.fakeStorage with
  | some fake => ((fake.lookup key).getD 0, object)
  | none =>
    match object.dirtyStorage.lookup key with
    | some value => (value, object)
    | none => object.getCommittedState database key

def setNonce (nonce : Nat) : OperationObject :=
  { object with data := { object.data with nonce := nonce } }

def setBalance (amount : Int) : OperationObject :=
  { object with data := { object.data with balance := amount } }

def setState (key value : Hash) : OperationObject :=
  { object with dirtyStorage := object.dirtyStorage.insert key value }

/-- `setCode`; the empty byte string stands for Go's nil slice. -/
def setCode (codeHash : Hash) (code : Bytes) : OperationObject :=
  { object with
    code := if code = [] then none else some code
    data := { object.data with codeHash := codeHash }
    dirtyCode := true }

def finalise : OperationObject :=
  { object with
    pendingStorage := object.dirtyStorage.entries.foldl
      (fun pending entry => pending.insert entry.1 entry.2) object.pendingStorage
    dirtyStorage := ∅ }

/-- A pending slot whose value differs from the original one goes to the trie. -/
def updateSlot (state : Storage × StorageTrie) (key value : Hash) : Storage × StorageTrie :=
  if value = (state.1.lookup key).getD 0 then state
  else (state.1.insert key value, Function.update state.2 key value)

/-- `updateTrie`: no trie is returned when none was opened and nothing is
pending. -/
def updateTrie : Option StorageTrie × OperationObject :=
  let object := object.finalise
  if object.pendingStorage.entries = [] then (object.trie, object)
  else
    let (trie, object) := object.getTrie database
    let (origin, trie) := object.pendingStorage.entries.foldl
      (fun state entry => updateSlot state entry.1 entry.2) (object.originStorage, trie)
    (some trie,
      { object with originStorage := origin, trie := some trie, pendingStorage := ∅ })

def updateRoot : OperationObject :=
  match object.updateTrie database with
  | (none, object) => object
  | (some trie, object) =>
    { object with data := { object.data with root := Crypto.storageRoot trie } }

end OperationObject

end Octopus
