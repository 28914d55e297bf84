import Octopus.Library.Store
import Octopus.OperationDB.Commit
import Octopus.OperationDB.Refinement

/-!
# Operations on a state database

The journaled operations as data, and the states that the public methods lead to.
`SetStorage` gives an account a storage for debugging; while it is there, slots are read
from it and written to it without a journal.
-/

namespace Octopus

open Library OperationDB

variable {result : Except CommitError (List (Hash × Bytes))} {codes : List (Hash × Bytes)}
  {delete : Bool} {addresses : List Address} {Value : Type} {root : Hash}
  {db : OperationDB}

inductive StateOp where
  | createAccount (address : Address)
  | addBalance (address : Address) (amount : Int)
  | subBalance (address : Address) (amount : Int)
  | setBalance (address : Address) (amount : Int)
  | setNonce (address : Address) (nonce : Nat)
  | setCode (address : Address) (code : Bytes)
  | setState (address : Address) (key value : Hash)
  | suicide (address : Address)
  | addRefund (gas : Nat)
  | subRefund (gas : Nat)
  | addLog (log : Log)
  | addAddressToAccessList (address : Address)
  | addSlotToAccessList (address : Address) (slot : Hash)

variable {instr : StateOp}

/-- `deepCopy`: the remembered error and the debugging storage stay behind. -/
def OperationObject.deepCopy (object : OperationObject) : OperationObject :=
  { OperationObject.ofAccount object.data with
    trie := object.trie
    code := object.code
    dirtyStorage := object.dirtyStorage
    originStorage := object.originStorage
    pendingStorage := object.pendingStorage
    suicided := object.suicided
    dirtyCode := object.dirtyCode
    deleted := object.deleted }

theorem OperationObject.trie_updateTrie {obj new : OperationObject} {disk : Database}
    {trie : StorageTrie} (updated : obj.updateTrie disk = (some trie, new)) :
    new.trie = some trie := by
  simp only [updateTrie] at updated
  split at updated
  · rw [Prod.mk.injEq] at updated
    rw [← updated.2]
    exact updated.1
  · rw [Prod.mk.injEq] at updated
    rw [← updated.2]
    exact updated.1

/-- Nothing stored is lost or replaced in the second database. -/
structure Database.Within (before after : Database) : Prop where
  accountTries : ∀ root trie, before.accountTries root = some trie →
    after.accountTries root = some trie
  storageTries : ∀ root trie, before.storageTries root = some trie →
    after.storageTries root = some trie
  codes : ∀ codeHash code, before.codes codeHash = some code → after.codes codeHash = some code

namespace OperationDB

/-- One round of the loops of `Copy` over the pending and the dirty accounts:
an account without an object is a nil pointer. -/
def copyObject (db : OperationDB) (objects : Address → Option OperationObject)
    (address : Address) : Except Fault (Address → Option OperationObject) :=
  match objects address, db.objects address with
  | some _, _ => .ok objects
  | none, none => .error nilDereference
  | none, some object => .ok (Function.update objects address (some object.deepCopy))

def journaled (db : OperationDB) : List Address :=
  db.journal.dirties.keys.filter fun address => (db.objects address).isSome

def journaledObjects (db : OperationDB) (address : Address) : Option OperationObject :=
  if address ∈ db.journaled then (db.objects address).map OperationObject.deepCopy else none

def copy (db : OperationDB) : Except Fault OperationDB := do
  let objects ← db.pending.foldlM db.copyObject db.journaledObjects
  let objects ← db.dirty.foldlM db.copyObject objects
  return {
    database := db.database
    originalRoot := 0
    trie := db.trie
    objects := objects
    pending := db.journaled ∪ db.pending
    dirty := db.journaled ∪ db.dirty
    logs := db.logs
    logSize := db.logSize
    accessList := db.accessList }

theorem copy_eq_ok {copied : OperationDB} (ran : db.copy = .ok copied) :
    ∃ pendingObjects objects,
      db.pending.foldlM db.copyObject db.journaledObjects = .ok pendingObjects ∧
      db.dirty.foldlM db.copyObject pendingObjects = .ok objects ∧
      copied = {
        database := db.database
        originalRoot := 0
        trie := db.trie
        objects := objects
        pending := db.journaled ∪ db.pending
        dirty := db.journaled ∪ db.dirty
        logs := db.logs
        logSize := db.logSize
        accessList := db.accessList } := by
  simp only [copy, bind, Except.bind] at ran
  split at ran
  · cases ran
  · next pendingObjects first =>
    split at ran
    · cases ran
    · next objects second =>
      cases ran
      exact ⟨pendingObjects, objects, first, second, rfl⟩

end OperationDB

variable [Crypto]

def StateOp.apply : StateOp → OperationDB → Except Fault OperationDB
  | createAccount address, db => .ok (db.createAccount address)
  | addBalance address amount, db => .ok (db.addBalance address amount)
  | subBalance address amount, db => .ok (db.subBalance address amount)
  | setBalance address amount, db => .ok (db.setBalance address amount)
  | setNonce address nonce, db => .ok (db.setNonce address nonce)
  | setCode address code, db => .ok (db.setCode address code)
  | setState address key value, db => .ok (db.setState address key value)
  | suicide address, db => .ok (db.suicide address).2
  | addRefund gas, db => .ok (db.addRefund gas)
  | subRefund gas, db => db.subRefund gas
  | addLog log, db => .ok (db.addLog log)
  | addAddressToAccessList address, db => .ok (db.addAddressToAccessList address)
  | addSlotToAccessList address slot, db => .ok (db.addSlotToAccessList address slot)

namespace OperationDB

def applyAll (operations : List StateOp) (db : OperationDB) : Except Fault OperationDB :=
  operations.foldlM (fun db operation => operation.apply db) db

def setStorage (db : OperationDB) (address : Address) (storage : Storage) : OperationDB :=
  let (object, db) := db.getOrNewOperationObject address
  let fake := storage.entries.foldl (fun fake entry => fake.insert entry.1 entry.2)
    (object.fakeStorage.getD ∅)
  db.setOperationObject address { object with fakeStorage := some fake }

/-- The states that the public methods lead to; others may add to the shared database. -/
inductive Reachable : OperationDB → Prop where
  | opened {root : Hash} {database : Database} {db : OperationDB}
      (opens : newOperationDb root database = some db) : Reachable db
  | read {db : OperationDB} {Value : Type} (earlier : Reachable db) (address : Address)
      (absent : Value) (getter : OperationObject → Database → Value × OperationObject)
      (caches : ∀ object database, (getter object database).2 = object ∨
        (getter object database).2 = (object.getCode database).2 ∨
        (getter object database).2 = (object.codeSize database).2 ∨
        (getter object database).2 = (object.getTrie database).2) :
      Reachable (db.readObject address absent getter).2
  | write {db after : OperationDB} (earlier : Reachable db) (operation : StateOp)
      (returned : operation.apply db = .ok after) : Reachable after
  | setStorage {db : OperationDB} (earlier : Reachable db) (address : Address)
      (storage : Storage) : Reachable (db.setStorage address storage)
  | prepare {db : OperationDB} (earlier : Reachable db) (txHash : Hash) (txIndex : Nat) :
      Reachable (db.prepare txHash txIndex)
  | finalise {db : OperationDB} (earlier : Reachable db) (deleteEmptyObjects : Bool) :
      Reachable (db.finalise deleteEmptyObjects)
  | intermediateRoot {db after : OperationDB} {root : Hash} (earlier : Reachable db)
      (deleteEmptyObjects : Bool)
      (returned : db.intermediateRoot deleteEmptyObjects = .ok (root, after)) : Reachable after
  | commit {db after : OperationDB} {result : Except CommitError Hash} (earlier : Reachable db)
      (deleteEmptyObjects : Bool) (returned : db.commit deleteEmptyObjects = .ok (result, after)) :
      Reachable after
  | copy {db copied : OperationDB} (earlier : Reachable db) (returned : db.copy = .ok copied) :
      Reachable copied
  | shared {db : OperationDB} {database : Database} (earlier : Reachable db)
      (grown : db.database.Within database) : Reachable { db with database := database }

end OperationDB

inductive OperationObject.Reachable : OperationObject → Prop where
  | blank : Reachable .blank
  | ofAccount (data : StateAccount) : Reachable (.ofAccount data)
  | setBalance {object : OperationObject} (earlier : Reachable object) (amount : Int) :
      Reachable (object.setBalance amount)
  | setNonce {object : OperationObject} (earlier : Reachable object) (nonce : Nat) :
      Reachable (object.setNonce nonce)
  | setCode {object : OperationObject} (earlier : Reachable object) (code : Bytes) :
      Reachable (object.setCode (Crypto.keccak256 code) code)
  | setState {object : OperationObject} (earlier : Reachable object) (key value : Hash) :
      Reachable (object.setState key value)
  | setFake {object : OperationObject} (earlier : Reachable object) (fake : Storage) :
      Reachable { object with fakeStorage := some fake }
  | suicide {object : OperationObject} (earlier : Reachable object) :
      Reachable { object.setBalance 0 with suicided := true }
  | getCode {object : OperationObject} (earlier : Reachable object) (database : Database) :
      Reachable (object.getCode database).2
  | codeSize {object : OperationObject} (earlier : Reachable object) (database : Database) :
      Reachable (object.codeSize database).2
  | getTrie {object : OperationObject} (earlier : Reachable object) (database : Database) :
      Reachable (object.getTrie database).2
  | delete {object : OperationObject} (earlier : Reachable object) :
      Reachable { object with deleted := true }
  | finalise {object : OperationObject} (earlier : Reachable object) : Reachable object.finalise
  | updateTrie {object : OperationObject} (earlier : Reachable object) (database : Database) :
      Reachable (object.updateTrie database).2
  | setRoot {object : OperationObject} {trie : StorageTrie} (earlier : Reachable object)
      (opened : object.trie = some trie) :
      Reachable { object with data := { object.data with root := Crypto.storageRoot trie } }
  | keepCode {object : OperationObject} (earlier : Reachable object) :
      Reachable { object with dirtyCode := false }
  | deepCopy {object : OperationObject} (earlier : Reachable object) : Reachable object.deepCopy

/-- What is cached is not empty, what is not stored yet has its hash, and a storage that is not
opened has a root. -/
structure OperationObject.Consistent (object : OperationObject) : Prop where
  code : object.code ≠ some []
  hashed : object.dirtyCode = true → object.data.codeHash = Crypto.keccak256 (object.code.getD [])
  root : object.trie = none → object.data.root ≠ 0

namespace OperationObject.Reachable

variable {obj : OperationObject} (earlier : obj.Reachable) (disk : Database)
include earlier

theorem getState (key : Hash) : (obj.getState disk key).2.Reachable := by
  rcases obj.getState_snd disk key with same | same
  · rwa [same]
  · rw [same]
    exact earlier.getTrie disk

theorem updateRoot : (obj.updateRoot disk).Reachable := by
  have updated := earlier.updateTrie disk
  unfold OperationObject.updateRoot
  split
  · next same => rwa [same] at updated
  · next same =>
    rw [same] at updated
    exact updated.setRoot (OperationObject.trie_updateTrie same)

omit disk in
theorem consistent : obj.Consistent := by
  induction earlier with
  | blank =>
    refine ⟨by simp [OperationObject.blank], by simp [OperationObject.blank], fun _ => ?_⟩
    change emptyRoot ≠ 0
    decide
  | ofAccount data =>
    refine ⟨?_, ?_, fun _ => root_ofAccount_ne_zero data⟩
    · simp [OperationObject.ofAccount]
    · simp [OperationObject.ofAccount]
  | setBalance _ _ kept | setNonce _ _ kept | setState _ _ _ kept | setFake _ _ kept
  | suicide _ kept | delete _ kept | finalise _ kept => exact ⟨kept.code, kept.hashed, kept.root⟩
  | setCode _ code kept =>
    refine ⟨?_, ?_, kept.root⟩
    · by_cases noCode : code = [] <;> simp [OperationObject.setCode]
    · by_cases noCode : code = [] <;> simp [OperationObject.setCode, noCode]
  | getCode _ _ kept =>
    unfold OperationObject.getCode
    split
    · exact kept
    next missing =>
    split
    · exact kept
    next coded =>
    split
    · next found =>
      refine ⟨?_, ?_, kept.root⟩
      · unfold Database.contractCode at found
        split at found
        · cases found
          simp
        · cases found
      · -- Code that is not stored yet is cached, unless it is empty.
        intro unstored
        have hashed := kept.hashed unstored
        rw [missing] at hashed
        exact absurd hashed coded
    · exact ⟨kept.code, kept.hashed, kept.root⟩
  | codeSize _ _ kept =>
    rw [codeSize_snd]
    exact ⟨kept.code, kept.hashed, kept.root⟩
  | getTrie _ _ kept =>
    rw [getTrie_snd]
    exact ⟨kept.code, kept.hashed, by simp⟩
  | updateTrie _ _ kept =>
    unfold OperationObject.updateTrie OperationObject.getTrie
    dsimp only
    split
    · exact ⟨kept.code, kept.hashed, kept.root⟩
    · split
      · exact ⟨kept.code, kept.hashed, by simp⟩
      · split <;> exact ⟨kept.code, kept.hashed, by simp⟩
  | setRoot _ opened kept => exact ⟨kept.code, kept.hashed, by simp [opened]⟩
  | keepCode _ kept => exact ⟨kept.code, by simp, kept.root⟩
  | deepCopy _ kept => exact ⟨kept.code, kept.hashed, fun _ => root_ofAccount_ne_zero _⟩

end OperationObject.Reachable

structure Database.Extends (before after : Database) : Prop where
  accounts : Grown Crypto.accountRoot before.accountTries after.accountTries
  storage : Grown Crypto.storageRoot before.storageTries after.storageTries
  codes : Grown Crypto.keccak256 before.codes after.codes

namespace Database.Extends

variable {old mid new : Database} (disk : Database)

theorem refl : disk.Extends disk :=
  ⟨.refl _, .refl _, .refl _⟩

theorem trans (first : old.Extends mid) (second : mid.Extends new) : old.Extends new :=
  ⟨first.accounts.trans second.accounts, first.storage.trans second.storage,
    first.codes.trans second.codes⟩

theorem insertStorageTrie (trie : StorageTrie) :
    disk.Extends (disk.insertStorageTrie (Crypto.storageRoot trie) trie) :=
  ⟨.refl _, .update _ trie, .refl _⟩

theorem insertAccountTrie (trie : AccountTrie) :
    disk.Extends (disk.insertAccountTrie (Crypto.accountRoot trie) trie) :=
  ⟨.update _ trie, .refl _, .refl _⟩

theorem insertCodes (hashed : ∀ pair ∈ codes, pair.1 = Crypto.keccak256 pair.2)
    (disk : Database) :
    disk.Extends
      (codes.foldl (fun disk code => disk.insertCode code.1 code.2) disk) := by
  refine List.foldlRecOn _ _ (motive := fun (state : Database) => disk.Extends state) (refl disk) ?_
  intro state kept code mem
  rw [hashed code mem]
  exact kept.trans ⟨.refl _, .refl _, .update _ code.2⟩

end Database.Extends

namespace OperationDB

def ObjectsReachable (db : OperationDB) : Prop :=
  ∀ address object, db.objects address = some object → object.Reachable

theorem ObjectsReachable.found {addr : Address} {obj : OperationObject}
    (reachable : db.ObjectsReachable) (here : db.find addr = some obj) : obj.Reachable := by
  rcases cached : db.objects addr with _ | other
  · simp only [find, cached, Option.none_or, Option.map_eq_some_iff] at here
    rcases here with ⟨data, -, rfl⟩
    exact .ofAccount data
  · simp only [find, cached, Option.some_or, Option.some.injEq] at here
    exact here ▸ reachable addr other cached

/-- An operation keeps what is cached, what is listed and the account trie, and
only adds to the database. -/
structure Grows (before after : OperationDB) : Prop where
  database : before.database.Extends after.database
  trie : after.trie = before.trie
  pending : after.pending = before.pending
  dirty : after.dirty = before.dirty
  cached : ∀ address, (before.objects address).isSome → (after.objects address).isSome
  reachable : before.ObjectsReachable → after.ObjectsReachable

theorem Grows.of_objects_eq {new : OperationDB} (disk : db.database.Extends new.database)
    (trie : new.trie = db.trie) (pending : new.pending = db.pending)
    (dirty : new.dirty = db.dirty) (objects : new.objects = db.objects) : Grows db new := by
  refine ⟨disk, trie, pending, dirty, fun addr cached => by rwa [objects], ?_⟩
  intro reachable addr obj here
  exact reachable addr obj (objects ▸ here)

structure Edits (before after : OperationDB) : Prop extends Grows before after where
  accessList : after.accessList = before.accessList

namespace Edits

variable {mid new : OperationDB} {addr : Address} {obj changed : OperationObject}

theorem refl (db : OperationDB) : Edits db db :=
  ⟨.of_objects_eq (.refl _) rfl rfl rfl rfl, rfl⟩

theorem trans (first : Edits db mid) (second : Edits mid new) : Edits db new where
  database := first.database.trans second.database
  trie := second.trie.trans first.trie
  pending := second.pending.trans first.pending
  dirty := second.dirty.trans first.dirty
  cached addr cached := second.cached addr (first.cached addr cached)
  reachable reachable := second.reachable (first.reachable reachable)
  accessList := second.accessList.trans first.accessList

theorem setOperationObject (made : db.ObjectsReachable → obj.Reachable) :
    Edits db (db.setOperationObject addr obj) := by
  refine ⟨⟨.refl _, rfl, rfl, rfl, ?_, ?_⟩, rfl⟩
  · intro other cached
    by_cases same : other = addr
    · simp [OperationDB.setOperationObject, same]
    · simpa [OperationDB.setOperationObject, same] using cached
  · intro reachable other found here
    rcases update_eq_some here with ⟨rfl, rfl⟩ | ⟨-, here⟩
    · exact made reachable
    · exact reachable other found here

theorem record (entry : JournalEntry) (made : db.ObjectsReachable → obj.Reachable) :
    Edits db (db.record entry addr obj) := by
  have appended : Edits db (db.append entry) := ⟨.of_objects_eq (.refl _) rfl rfl rfl rfl, rfl⟩
  exact appended.trans (setOperationObject made)

theorem getOperationObject (db : OperationDB) (addr : Address) :
    Edits db (db.getOperationObject addr).2 := by
  unfold OperationDB.getOperationObject
  split
  · exact refl db
  · split
    · exact refl db
    · exact setOperationObject fun _ => .ofAccount _

theorem looked {found : Option OperationObject}
    (read : db.getOperationObject addr = (found, mid)) : Edits db mid ∧ mid.find addr = found := by
  have kept := getOperationObject db addr
  rcases of_getOperationObject read with ⟨found, same, -⟩
  rw [read] at kept
  exact ⟨kept, by rw [same, found]⟩

theorem createAccount (db : OperationDB) (addr : Address) : Edits db (db.createAccount addr) := by
  rcases db.createAccount_cases addr with ⟨-, same⟩ | ⟨_, _, read, same⟩
  · rw [same]
    exact record _ fun _ => .blank
  · rw [same]
    exact (looked read).1.trans (record _ fun _ => .setBalance .blank _)

theorem getOrNewOperationObject (read : db.getOrNewOperationObject addr = (obj, mid)) :
    Edits db mid ∧ (mid.ObjectsReachable → obj.Reachable) := by
  rcases of_getOrNewOperationObject read with found | ⟨-, rfl, rfl⟩
  · exact ⟨(looked found).1, fun reachable => reachable.found (looked found).2⟩
  · exact ⟨record _ fun _ => .blank, fun _ => .blank⟩

theorem recordNew (read : db.getOrNewOperationObject addr = (obj, mid))
    (entry : JournalEntry) (made : obj.Reachable → changed.Reachable) :
    Edits db (mid.record entry addr changed) := by
  rcases getOrNewOperationObject read with ⟨kept, found⟩
  exact kept.trans (record entry fun reachable => made (found reachable))

section

variable (db : OperationDB) (addr : Address)

theorem addBalance (amount : Int) : Edits db (db.addBalance addr amount) := by
  rcases read : db.getOrNewOperationObject addr with ⟨_, _⟩
  simp only [OperationDB.addBalance, read]
  split
  · exact (getOrNewOperationObject read).1
  · exact recordNew read _ fun made => made.setBalance _

theorem setState (key value : Hash) : Edits db (db.setState addr key value) := by
  rcases read : db.getOrNewOperationObject addr with ⟨_, mid⟩
  rcases getOrNewOperationObject read with ⟨kept, found⟩
  simp only [OperationDB.setState, read]
  split
  · exact kept.trans (setOperationObject fun reachable => (found reachable).setFake _)
  · split
    · exact kept.trans (setOperationObject fun reachable =>
        (found reachable).getState mid.database key)
    · exact recordNew read _ fun made => (made.getState mid.database key).setState key value

theorem setStorage (storage : Storage) : Edits db (db.setStorage addr storage) := by
  rcases read : db.getOrNewOperationObject addr with ⟨_, _⟩
  rcases getOrNewOperationObject read with ⟨kept, found⟩
  simp only [OperationDB.setStorage, read]
  exact kept.trans (setOperationObject fun reachable => (found reachable).setFake _)

theorem suicide : Edits db (db.suicide addr).2 := by
  rcases read : db.getOperationObject addr with ⟨_ | _, _⟩
  · simp only [OperationDB.suicide, read]
    exact (looked read).1
  · simp only [OperationDB.suicide, read]
    exact (looked read).1.trans
      (record _ fun reachable => (reachable.found (looked read).2).suicide)

theorem readObject (absent : Value) {getter : OperationObject → Database → Value × OperationObject}
    (caches : ∀ obj disk, (getter obj disk).2 = obj ∨ (getter obj disk).2 = (obj.getCode disk).2 ∨
      (getter obj disk).2 = (obj.codeSize disk).2 ∨ (getter obj disk).2 = (obj.getTrie disk).2) :
    Edits db (db.readObject addr absent getter).2 := by
  rcases read : db.getOperationObject addr with ⟨_ | obj, mid⟩
  · simp only [OperationDB.readObject, read]
    exact (looked read).1
  simp only [OperationDB.readObject, read]
  refine (looked read).1.trans (setOperationObject fun reachable => ?_)
  have made := reachable.found (looked read).2
  rcases caches obj mid.database with same | same | same | same
  · rwa [same]
  · rw [same]
    exact made.getCode _
  · rw [same]
    exact made.codeSize _
  · rw [same]
    exact made.getTrie _

end

theorem apply (ran : instr.apply db = .ok new)
    (noAddress : ∀ addr, instr ≠ .addAddressToAccessList addr)
    (noSlot : ∀ addr slot, instr ≠ .addSlotToAccessList addr slot) : Edits db new := by
  cases instr with
  | createAccount addr =>
    cases ran
    exact createAccount db addr
  | addBalance addr amount =>
    cases ran
    exact addBalance db addr amount
  | subBalance addr amount =>
    cases ran
    rw [subBalance_eq_addBalance]
    exact addBalance db addr (-amount)
  | setBalance addr amount =>
    cases ran
    rcases read : db.getOrNewOperationObject addr with ⟨_, _⟩
    simp only [setBalance, read]
    exact recordNew read _ fun made => made.setBalance amount
  | setNonce addr nonce =>
    cases ran
    rcases read : db.getOrNewOperationObject addr with ⟨_, _⟩
    simp only [setNonce, read]
    exact recordNew read _ fun made => made.setNonce nonce
  | setCode addr code =>
    cases ran
    rcases read : db.getOrNewOperationObject addr with ⟨_, mid⟩
    simp only [setCode, read]
    exact recordNew read _ fun made => (made.getCode mid.database).setCode code
  | setState addr key value =>
    cases ran
    exact setState db addr key value
  | suicide addr =>
    cases ran
    exact suicide db addr
  | addRefund | addLog =>
    cases ran
    exact ⟨.of_objects_eq (.refl _) rfl rfl rfl rfl, rfl⟩
  | subRefund =>
    simp only [StateOp.apply, subRefund] at ran
    split_ifs at ran
    cases ran
    exact ⟨.of_objects_eq (.refl _) rfl rfl rfl rfl, rfl⟩
  | addAddressToAccessList addr => exact absurd rfl (noAddress addr)
  | addSlotToAccessList addr slot => exact absurd rfl (noSlot addr slot)

theorem commitTrie (addr : Address) (made : db.ObjectsReachable → obj.Reachable) :
    Edits db (db.commitTrie addr obj).2 := by
  have updated := fun reachable => (made reachable).updateTrie db.database
  unfold OperationDB.commitTrie
  split
  · next same =>
    rw [same] at updated
    exact setOperationObject updated
  · next same =>
    rw [same] at updated
    split
    · exact setOperationObject updated
    · have stored : Edits db (db.setOperationObject addr _) := setOperationObject fun reachable =>
        (updated reachable).setRoot (OperationObject.trie_updateTrie same)
      exact stored.trans ⟨.of_objects_eq (.insertStorageTrie ..) rfl rfl rfl rfl, rfl⟩

theorem commitObjects (ran : commitObjects addresses codes db = .ok (result, new)) :
    Edits db new := by
  induction addresses generalizing codes db with
  | nil =>
    cases ran
    exact refl _
  | cons addr _ ih =>
    unfold commitObjects at ran
    split at ran
    · cases ran
    · next obj cached =>
      split_ifs at ran with deleted
      · exact ih ran
      · split at ran
        next wrote cleaned branch =>
        have stepped : Edits db (db.commitTrie addr cleaned).2 := by
          apply commitTrie
          intro reachable
          have made := reachable addr obj cached
          split at branch
          · cases branch
            exact made.keepCode
          · cases branch
            exact made
        split at ran
        · next committed =>
          cases ran
          rwa [committed] at stepped
        · next committed =>
          rw [committed] at stepped
          exact stepped.trans (ih ran)

end Edits

theorem Grows.apply {new : OperationDB} (ran : instr.apply db = .ok new) : Grows db new := by
  cases instr with
  | addAddressToAccessList addr =>
    cases ran
    unfold addAddressToAccessList
    split <;> exact .of_objects_eq (.refl _) rfl rfl rfl rfl
  | addSlotToAccessList addr slot =>
    cases ran
    unfold addSlotToAccessList
    dsimp only
    split <;> split <;> exact .of_objects_eq (.refl _) rfl rfl rfl rfl
  | _ => exact (Edits.apply ran (by simp) (by simp)).toGrows

namespace ObjectsReachable

variable {new : OperationDB} {addr : Address} (reachable : db.ObjectsReachable)
include reachable

theorem finalise (delete : Bool) : (db.finalise delete).ObjectsReachable := by
  refine finalise_induction (motive := ObjectsReachable) reachable ?_ fun _ kept => kept
  intro state addr obj kept cached changed outcome
  refine (Edits.setOperationObject fun _ => ?_).reachable kept
  have made := kept addr obj cached
  rcases outcome with rfl | rfl
  · exact made.delete
  · exact made.finalise

theorem intermediateRoot (ran : db.intermediateRoot delete = .ok (root, new)) :
    new.ObjectsReachable := by
  refine intermediateRoot_induction (motive := ObjectsReachable) ran (reachable.finalise _)
    ?_ ?_ fun _ kept => kept
  · intro state addr obj kept cached
    exact (Edits.setOperationObject fun _ => (kept addr obj cached).updateRoot _).reachable kept
  · intro state addr obj kept _
    refine ⟨kept, ?_⟩
    unfold updateOperationObject
    split <;> exact kept

theorem commit {result : Except CommitError Hash}
    (ran : db.commit delete = .ok (result, new)) : new.ObjectsReachable := by
  rcases commit_eq_ok ran with ⟨_, -, -, rfl⟩ | ⟨-, _, _, rooted, outcome⟩
  · exact reachable
  have kept := reachable.intermediateRoot rooted
  rcases outcome with ⟨_, looped, -⟩ | ⟨_, _, looped, -, rfl⟩
  · exact (Edits.commitObjects looped).reachable kept
  · have stored := (Edits.commitObjects looped).reachable kept
    exact stored

theorem copyObject {objects next : Address → Option OperationObject}
    (made : ∀ addr obj, objects addr = some obj → obj.Reachable)
    (ran : db.copyObject objects addr = .ok next) :
    ∀ addr obj, next addr = some obj → obj.Reachable := by
  unfold OperationDB.copyObject at ran
  split at ran
  · cases ran
    exact made
  · cases ran
  · next source _ cached =>
    cases ran
    intro other found here
    rcases update_eq_some here with ⟨rfl, rfl⟩ | ⟨-, here⟩
    · exact (reachable other source cached).deepCopy
    · exact made other found here

theorem copy (ran : db.copy = .ok new) : new.ObjectsReachable := by
  rcases copy_eq_ok ran with ⟨_, objects, first, second, rfl⟩
  have journaled : ∀ addr obj, db.journaledObjects addr = some obj → obj.Reachable := by
    intro addr obj here
    unfold journaledObjects at here
    split at here
    · rcases Option.map_eq_some_iff.mp here with ⟨source, cached, rfl⟩
      exact (reachable addr source cached).deepCopy
    · cases here
  have pendingMade := foldlM_invariant
    (fun objects => ∀ addr obj, objects addr = some obj → obj.Reachable)
    (fun _ _ _ made taken => reachable.copyObject made taken) journaled first
  exact foldlM_invariant
    (fun objects => ∀ addr obj, objects addr = some obj → obj.Reachable)
    (fun _ _ _ made taken => reachable.copyObject made taken) pendingMade second

end ObjectsReachable

theorem Reachable.objects (reachable : db.Reachable) : db.ObjectsReachable := by
  induction reachable with
  | opened opens =>
    simp only [newOperationDb, Option.map_eq_some_iff] at opens
    rcases opens with ⟨_, -, rfl⟩
    intro addr obj here
    cases here
  | read _ _ absent _ caches kept => exact (Edits.readObject _ _ absent caches).reachable kept
  | write _ _ ran kept => exact (Grows.apply ran).reachable kept
  | setStorage _ _ _ kept => exact (Edits.setStorage ..).reachable kept
  | prepare _ _ _ kept => exact kept
  | finalise _ delete kept => exact kept.finalise delete
  | intermediateRoot _ _ ran kept => exact kept.intermediateRoot ran
  | commit _ _ ran kept => exact kept.commit ran
  | copy _ ran kept => exact kept.copy ran
  | shared _ _ kept => exact kept

section

variable (db : OperationDB) (addr : Address)

theorem accessList_finalise (delete : Bool) : (db.finalise delete).accessList = db.accessList :=
  finalise_induction (motive := fun state => state.accessList = db.accessList) rfl
    (fun _ _ _ kept _ _ _ => kept) fun _ kept => kept

end

variable {db new : OperationDB} {delete : Bool}

theorem accessList_intermediateRoot
    (ran : db.intermediateRoot delete = .ok (root, new)) : new.accessList = db.accessList := by
  refine intermediateRoot_induction (motive := fun state => state.accessList = db.accessList)
    ran (db.accessList_finalise delete) (fun _ _ _ kept _ => kept) ?_ fun _ kept => kept
  intro state addr obj kept _
  refine ⟨kept, ?_⟩
  unfold updateOperationObject
  split <;> exact kept

theorem accessList_commit {result : Except CommitError Hash}
    (ran : db.commit delete = .ok (result, new)) : new.accessList = db.accessList := by
  rcases commit_eq_ok ran with ⟨_, -, -, rfl⟩ | ⟨-, _, _, rooted, outcome⟩
  · rfl
  rw [← accessList_intermediateRoot rooted]
  rcases outcome with ⟨_, looped, -⟩ | ⟨_, _, looped, -, rfl⟩
  · exact (Edits.commitObjects looped).accessList
  · have stored := (Edits.commitObjects looped).accessList
    exact stored

end OperationDB

end Octopus
