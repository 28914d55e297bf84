import Octopus.OperationDB.Object

/-!
# The state database

`OperationDB` caches account objects over the account trie and journals every change.
Reads load objects into the cache, so they return the database too.  An object that was
marked deleted stays in the cache and is still returned.  `Snapshot`, `RevertToSnapshot`
and `AddPreimage` are not implemented in the source: they panic.
-/

namespace Octopus

inductive JournalEntry where
  | createObject (account : Address)
  | resetObject (account : Address) (prev : OperationObject)
  | code (account : Address) (prevCode : Bytes) (prevHash : Hash)
  | balance (account : Address) (prev : Int)
  | nonce (account : Address) (prev : Nat)
  | storage (account : Address) (key prevalue : Hash)
  | suicide (account : Address) (prev : Bool) (prevBalance : Int)
  | accessListAddAccount (address : Address)
  | accessListAddSlot (address : Address) (slot : Hash)
  | refund (prev : Nat)
  | addLog (txHash : Hash)

def JournalEntry.dirtied : JournalEntry → Option Address
  | createObject account => some account
  | resetObject _ _ => none
  | code account _ _ => some account
  | balance account _ => some account
  | nonce account _ => some account
  | storage account _ _ => some account
  | suicide account _ _ => some account
  | accessListAddAccount _ => none
  | accessListAddSlot _ _ => none
  | refund _ => none
  | addLog _ => none

/-- `Journal`: the entries in order and the number of changes per account. -/
structure Journal where
  entries : List JournalEntry := []
  dirties : AList (fun _ : Address => Nat) := ∅

namespace Journal

def append (journal : Journal) (entry : JournalEntry) : Journal where
  entries := journal.entries ++ [entry]
  dirties :=
    match entry.dirtied with
    | some address => journal.dirties.insert address ((journal.dirties.lookup address).getD 0 + 1)
    | none => journal.dirties

theorem mem_dirties_append {journal : Journal} {entry : JournalEntry} {addr : Address} :
    addr ∈ (journal.append entry).dirties ↔ entry.dirtied = some addr ∨ addr ∈ journal.dirties := by
  rcases marked : entry.dirtied with _ | other
  · simp [append, marked]
  · simp [append, marked, eq_comm]

end Journal

/-- `accessList`: every listed address points to its slot set, if it has one. -/
structure AccessList where
  addresses : AList (fun _ : Address => Option Nat) := ∅
  slots : List (List Hash) := []

namespace AccessList

def containsAddress (list : AccessList) (address : Address) : Bool :=
  (list.addresses.lookup address).isSome

/-- `Contains`: whether the address, and whether the slot under it, is listed. -/
def contains (list : AccessList) (address : Address) (slot : Hash) : Bool × Bool :=
  match list.addresses.lookup address with
  | none => (false, false)
  | some none => (true, false)
  | some (some index) => (true, (list.slots.getD index []).contains slot)

def addAddress (list : AccessList) (address : Address) : Bool × AccessList :=
  if list.containsAddress address then (false, list)
  else (true, { list with addresses := list.addresses.insert address none })

def addSlot (list : AccessList) (address : Address) (slot : Hash) : (Bool × Bool) × AccessList :=
  match list.addresses.lookup address with
  | some (some index) =>
    if (list.slots.getD index []).contains slot then ((false, false), list)
    else
      ((false, true),
        { list with slots := list.slots.set index (slot :: list.slots.getD index []) })
  | found =>
    ((found.isNone, true),
      { addresses := list.addresses.insert address (some list.slots.length)
        slots := list.slots ++ [[slot]] })

def deleteAddress (list : AccessList) (address : Address) : AccessList :=
  { list with addresses := list.addresses.erase address }

/-- `DeleteSlot`, which panics if the address is not listed or has no slots. -/
def deleteSlot (list : AccessList) (address : Address) (slot : Hash) : Except Fault AccessList :=
  match list.addresses.lookup address with
  | none => .error (.panic "reverting slot change, address not present in list")
  | some none => .error (.panic "index out of range")
  | some (some index) =>
    if index < list.slots.length then
      let rest := (list.slots.getD index []).erase slot
      if rest = [] then
        .ok { addresses := list.addresses.insert address none, slots := list.slots.take index }
      else .ok { list with slots := list.slots.set index rest }
    else .error (.panic "index out of range")

end AccessList

/-- `block.Log`, with the fields that the virtual machine and the state
database fill in. -/
structure Log where
  address : Address
  topics : List Hash
  data : Bytes
  blockNumber : Nat
  txHash : Hash := 0
  txIndex : Nat := 0
  index : Nat := 0
  deriving DecidableEq

structure OperationDB where
  database : Database
  originalRoot : Hash
  trie : AccountTrie
  objects : Address → Option OperationObject := fun _ => none
  pending : List Address := []
  dirty : List Address := []
  dbErr : Option StateError := none
  refund : Nat := 0
  txHash : Hash := 0
  txIndex : Nat := 0
  logs : Hash → List Log := fun _ => []
  logSize : Nat := 0
  accessList : AccessList := {}
  journal : Journal := {}

def newOperationDb (root : Hash) (database : Database) : Option OperationDB :=
  (database.openTrie root).map fun trie =>
    { database := database, originalRoot := root, trie := trie }

def emptyState : OperationDB where
  database := emptyDatabase
  originalRoot := emptyRoot
  trie := fun _ => none

namespace OperationDB

variable [Crypto] (db : OperationDB) (address : Address)

def setError (error : StateError) : OperationDB :=
  { db with dbErr := db.dbErr.or (some error) }

def setOperationObject (object : OperationObject) : OperationDB :=
  { db with objects := Function.update db.objects address (some object) }

def append (entry : JournalEntry) : OperationDB :=
  { db with journal := db.journal.append entry }

def record (entry : JournalEntry) (address : Address) (object : OperationObject) : OperationDB :=
  (db.append entry).setOperationObject address object

/-- Also `getDeletedOperationObject`, from which it does not differ: the cached object, deleted
or not, or the one decoded from the trie, which is then cached. -/
def getOperationObject : Option OperationObject × OperationDB :=
  match db.objects address with
  | some object => (some object, db)
  | none =>
    match db.trie address with
    | none => (none, db)
    | some data => (some (.ofAccount data), db.setOperationObject address (.ofAccount data))

/-- `createObject`: a blank object in place of whatever was there before,
which is returned as well. -/
def createObject : (OperationObject × Option OperationObject) × OperationDB :=
  match db.getOperationObject address with
  | (none, db) => ((.blank, none), db.record (.createObject address) address .blank)
  | (some prev, db) => ((.blank, some prev), db.record (.resetObject address prev) address .blank)

def getOrNewOperationObject : OperationObject × OperationDB :=
  match db.getOperationObject address with
  | (some object, db) => (object, db)
  | (none, db) =>
    let ((object, _), db) := db.createObject address
    (object, db)

def createAccount : OperationDB :=
  match db.createObject address with
  | ((_, none), db) => db
  | ((object, some prev), db) => db.setOperationObject address (object.setBalance prev.data.balance)

def setObjectBalance (object : OperationObject) (amount : Int) : OperationDB :=
  db.record (.balance address object.data.balance) address (object.setBalance amount)

def subBalance (amount : Int) : OperationDB :=
  let (object, db) := db.getOrNewOperationObject address
  if amount = 0 then db
  else db.setObjectBalance address object (object.data.balance - amount)

/-- `AddBalance`; touching an empty object has no effect in the source. -/
def addBalance (amount : Int) : OperationDB :=
  let (object, db) := db.getOrNewOperationObject address
  if amount = 0 then db
  else db.setObjectBalance address object (object.data.balance + amount)

def setBalance (amount : Int) : OperationDB :=
  let (object, db) := db.getOrNewOperationObject address
  db.setObjectBalance address object amount

/-- The shape of every getter: read the object if there is one, and keep what
the read cached in it. -/
def readObject {Value : Type} (db : OperationDB) (address : Address) (absent : Value)
    (read : OperationObject → Database → Value × OperationObject) : Value × OperationDB :=
  match db.getOperationObject address with
  | (some object, db) =>
    let (value, object) := read object db.database
    (value, db.setOperationObject address object)
  | (none, db) => (absent, db)

def getBalance : Int × OperationDB :=
  db.readObject address 0 fun object _ => (object.data.balance, object)

def getNonce : Nat × OperationDB :=
  db.readObject address 0 fun object _ => (object.data.nonce, object)

def setNonce (nonce : Nat) : OperationDB :=
  let (object, db) := db.getOrNewOperationObject address
  db.record (.nonce address object.data.nonce) address (object.setNonce nonce)

def getCodeHash : Hash × OperationDB :=
  db.readObject address 0 fun object _ => (object.data.codeHash, object)

def getCode : Bytes × OperationDB :=
  db.readObject address [] fun object database => object.getCode database

def getCodeSize : Nat × OperationDB :=
  db.readObject address 0 fun object database => object.codeSize database

def setCode (code : Bytes) : OperationDB :=
  let (object, db) := db.getOrNewOperationObject address
  let (prevCode, object) := object.getCode db.database
  db.record (.code address prevCode object.data.codeHash) address
    (object.setCode (Crypto.keccak256 code) code)

def getCommittedState (key : Hash) : Hash × OperationDB :=
  db.readObject address 0 fun object database => object.getCommittedState database key

def getState (key : Hash) : Hash × OperationDB :=
  db.readObject address 0 fun object database => object.getState database key

/-- `SetState`; writing the value that is already there changes nothing. -/
def setState (key value : Hash) : OperationDB :=
  let (object, db) := db.getOrNewOperationObject address
  match object.fakeStorage with
  | some fake =>
    db.setOperationObject address { object with fakeStorage := some (fake.insert key value) }
  | none =>
    let (prev, object) := object.getState db.database key
    if prev = value then db.setOperationObject address object
    else db.record (.storage address key prev) address (object.setState key value)

def suicide : Bool × OperationDB :=
  match db.getOperationObject address with
  | (none, db) => (false, db)
  | (some object, db) =>
    (true, db.record (.suicide address object.suicided object.data.balance) address
      { object.setBalance 0 with suicided := true })

def hasSuicided : Bool × OperationDB :=
  db.readObject address false fun object _ => (object.suicided, object)

def exist : Bool × OperationDB :=
  db.readObject address false fun object _ => (true, object)

def empty : Bool × OperationDB :=
  db.readObject address true fun object _ => (object.empty, object)

def addRefund (gas : Nat) : OperationDB :=
  { db.append (.refund db.refund) with refund := (db.refund + gas) % uint64Size }

def subRefund (gas : Nat) : Except Fault OperationDB :=
  if db.refund < gas then .error (.panic "Refund counter below zero")
  else .ok { db.append (.refund db.refund) with refund := db.refund - gas }

def addressInAccessList : Bool :=
  db.accessList.containsAddress address

def slotInAccessList (slot : Hash) : Bool × Bool :=
  db.accessList.contains address slot

def addAddressToAccessList : OperationDB :=
  match db.accessList.addAddress address with
  | (true, list) => { db with accessList := list }.append (.accessListAddAccount address)
  | (false, _) => db

def addSlotToAccessList (slot : Hash) : OperationDB :=
  let ((addressNew, slotNew), list) := db.accessList.addSlot address slot
  let db := { db with accessList := list }
  let db := if addressNew then db.append (.accessListAddAccount address) else db
  if slotNew then db.append (.accessListAddSlot address slot) else db

def addLog (log : Log) : OperationDB :=
  let log := { log with txHash := db.txHash, txIndex := db.txIndex, index := db.logSize }
  let logs := Function.update db.logs db.txHash (db.logs db.txHash ++ [log])
  { db.append (.addLog db.txHash) with logs := logs, logSize := db.logSize + 1 }

def prepare (txHash : Hash) (txIndex : Nat) : OperationDB :=
  { db with txHash := txHash, txIndex := txIndex }

end OperationDB

end Octopus
