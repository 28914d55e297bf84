import Octopus.Library.Pointwise
import Octopus.OperationDB.State

/-!
# Writing a state back

`Finalise` moves the accounts that the journal calls dirty to the pending ones,
`IntermediateRoot` writes these to the account trie, and `Commit` stores code and tries.
The source walks Go maps here; each round touches one address only, so the order shows in
nothing but which error is remembered first.
-/

namespace Octopus

inductive CommitError where
  | aborted (earlier : StateError)
  | storageTrie (error : StateError)
  deriving DecidableEq

namespace Database

def insertCode (database : Database) (codeHash : Hash) (code : Bytes) : Database :=
  { database with codes := Function.update database.codes codeHash (some code) }

def insertStorageTrie (database : Database) (root : Hash) (trie : StorageTrie) : Database :=
  { database with storageTries := Function.update database.storageTries root (some trie) }

def insertAccountTrie (database : Database) (root : Hash) (trie : AccountTrie) : Database :=
  { database with accountTries := Function.update database.accountTries root (some trie) }

end Database

section

variable [Crypto]

def OperationObject.doomed (object : OperationObject) (deleteEmptyObjects : Bool) : Bool :=
  object.suicided || (deleteEmptyObjects && object.empty)

end

namespace OperationDB

variable [Crypto]

def finaliseObject (deleteEmptyObjects : Bool) (db : OperationDB) (address : Address) :
    OperationDB :=
  match db.objects address with
  | none => db
  | some object =>
    let object :=
      if object.doomed deleteEmptyObjects then { object with deleted := true }
      else object.finalise
    { db.setOperationObject address object with
      pending := db.pending.insert address
      dirty := db.dirty.insert address }

def clearJournalAndRefund (db : OperationDB) : OperationDB :=
  if db.journal.entries = [] then db else { db with journal := {}, refund := 0 }

def finalise (deleteEmptyObjects : Bool) (db : OperationDB) : OperationDB :=
  (db.journal.dirties.keys.foldl (finaliseObject deleteEmptyObjects) db).clearJournalAndRefund

def updateObjectRoot (db : OperationDB) (address : Address) : Except Fault OperationDB :=
  match db.objects address with
  | none => .error nilDereference
  | some object =>
    if object.deleted then .ok db
    else .ok (db.setOperationObject address (object.updateRoot db.database))

def deleteOperationObject (db : OperationDB) (address : Address) : OperationDB :=
  { db with trie := Function.update db.trie address none }

/-- `updateOperationObject`: a negative balance cannot be encoded, and the trie
then stays as it is. -/
def updateOperationObject (db : OperationDB) (address : Address) (object : OperationObject) :
    OperationDB :=
  if object.data.balance < 0 then db.setError (.updateStateObject address)
  else { db with trie := Function.update db.trie address (some object.data) }

def writeObject (db : OperationDB) (address : Address) : Except Fault OperationDB :=
  match db.objects address with
  | none => .error nilDereference
  | some object =>
    if object.deleted then .ok (db.deleteOperationObject address)
    else .ok (db.updateOperationObject address object)

def intermediateRoot (deleteEmptyObjects : Bool) (db : OperationDB) :
    Except Fault (Hash × OperationDB) := do
  let db := db.finalise deleteEmptyObjects
  let updated ← db.pending.foldlM updateObjectRoot db
  let written ← updated.pending.foldlM writeObject updated
  return (Crypto.accountRoot written.trie, { written with pending := [] })

/-- `CommitTrie`: the storage trie is stored unless an earlier error of the object forbids it. -/
def commitTrie (db : OperationDB) (address : Address) (object : OperationObject) :
    Except CommitError Unit × OperationDB :=
  match object.updateTrie db.database with
  | (none, object) => (.ok (), db.setOperationObject address object)
  | (some trie, object) =>
    match object.dbErr with
    | some error => (.error (.storageTrie error), db.setOperationObject address object)
    | none =>
      let root := Crypto.storageRoot trie
      let object := { object with data := { object.data with root := root } }
      (.ok (), { db.setOperationObject address object with
        database := db.database.insertStorageTrie root trie })

/-- The loop of `Commit` over the dirty objects.  Code is written after it, so an error loses it. -/
def commitObjects : List Address → List (Hash × Bytes) → OperationDB →
    Except Fault (Except CommitError (List (Hash × Bytes)) × OperationDB)
  | [], codes, db => .ok (.ok codes, db)
  | address :: rest, codes, db =>
    match db.objects address with
    | none => .error nilDereference
    | some object =>
      if object.deleted then commitObjects rest codes db
      else
        let (codes, object) :=
          match object.code, object.dirtyCode with
          | some code, true =>
            (codes ++ [(object.data.codeHash, code)], { object with dirtyCode := false })
          | _, _ => (codes, object)
        match db.commitTrie address object with
        | (.error error, db) => .ok (.error error, db)
        | (.ok (), db) => commitObjects rest codes db

/-- `Commit`, and `TrieDatabase.Commit` of the root it returns. -/
def commit (deleteEmptyObjects : Bool) (db : OperationDB) :
    Except Fault (Except CommitError Hash × OperationDB) :=
  match db.dbErr with
  | some earlier => .ok (.error (.aborted earlier), db)
  | none => do
      let (root, db) ← db.intermediateRoot deleteEmptyObjects
      match ← commitObjects db.dirty [] db with
      | (.error error, db) => return (.error error, db)
      | (.ok codes, db) =>
        let database := codes.foldl (fun database code => database.insertCode code.1 code.2)
          db.database
        return (.ok root, { db with
          database := database.insertAccountTrie root db.trie
          dirty := []
          originalRoot := root })

variable {db after : OperationDB} {delete : Bool}

theorem intermediateRoot_eq_ok {root : Hash}
    (ran : db.intermediateRoot delete = .ok (root, after)) :
    ∃ updated wrote,
      (db.finalise delete).pending.foldlM updateObjectRoot (db.finalise delete) = .ok updated ∧
      updated.pending.foldlM writeObject updated = .ok wrote ∧
      root = Crypto.accountRoot wrote.trie ∧ after = { wrote with pending := [] } := by
  simp only [intermediateRoot, bind, Except.bind] at ran
  split at ran
  · cases ran
  · next updated first =>
    split at ran
    · cases ran
    · next wrote second =>
      cases ran
      exact ⟨updated, wrote, first, second, rfl, rfl⟩

section

variable {motive : OperationDB → Prop}

theorem finalise_induction (start : motive db) (rounds : ∀ (state : OperationDB) addr obj,
      motive state → state.objects addr = some obj → ∀ changed,
        changed = { obj with deleted := true } ∨ changed = obj.finalise →
          motive { state.setOperationObject addr changed with
            pending := state.pending.insert addr, dirty := state.dirty.insert addr })
    (cleared : ∀ state : OperationDB, motive state →
      motive { state with journal := {}, refund := 0 }) : motive (db.finalise delete) := by
  have looped : motive (db.journal.dirties.keys.foldl (finaliseObject delete) db) := by
    refine List.foldlRecOn _ _ start ?_
    intro state kept addr _
    unfold finaliseObject
    split
    · exact kept
    · next obj cached =>
      apply rounds state addr obj kept cached
      split
      · exact .inl rfl
      · exact .inr rfl
  unfold finalise clearJournalAndRefund
  split
  · exact looped
  · exact cleared _ looped

theorem intermediateRoot_induction {root : Hash}
    (ran : db.intermediateRoot delete = .ok (root, after))
    (start : motive (db.finalise delete)) (roots : ∀ (state : OperationDB) addr obj, motive state →
      state.objects addr = some obj →
        motive (state.setOperationObject addr (obj.updateRoot state.database)))
    (records : ∀ (state : OperationDB) addr obj, motive state →
      state.objects addr = some obj → motive (state.deleteOperationObject addr) ∧
        motive (state.updateOperationObject addr obj))
    (emptied : ∀ state : OperationDB, motive state → motive { state with pending := [] }) :
    motive after := by
  rcases intermediateRoot_eq_ok ran with ⟨updated, wrote, first, second, -, rfl⟩
  have rooted : motive updated := by
    refine Library.foldlM_invariant motive ?_ start first
    intro state addr next kept taken
    unfold updateObjectRoot at taken
    split at taken
    · cases taken
    · next obj cached =>
      split at taken
      · cases taken
        exact kept
      · cases taken
        exact roots state addr obj kept cached
  refine emptied _ (Library.foldlM_invariant motive ?_ rooted second)
  intro state addr next kept taken
  unfold writeObject at taken
  split at taken
  · cases taken
  · next obj cached =>
    rcases records state addr obj kept cached with ⟨deleted, recorded⟩
    split at taken
    · cases taken
      exact deleted
    · cases taken
      exact recorded

end

theorem commit_eq_ok {result : Except CommitError Hash}
    (ran : db.commit delete = .ok (result, after)) :
    (∃ earlier, db.dbErr = some earlier ∧ result = .error (.aborted earlier) ∧ after = db) ∨
      db.dbErr = none ∧ ∃ root mid, db.intermediateRoot delete = .ok (root, mid) ∧
        ((∃ error, commitObjects mid.dirty [] mid = .ok (.error error, after) ∧
            result = .error error) ∨
          ∃ codes last, commitObjects mid.dirty [] mid = .ok (.ok codes, last) ∧ result = .ok root ∧
            after = { last with
              database := (codes.foldl (fun disk code => disk.insertCode code.1 code.2)
                last.database).insertAccountTrie root last.trie
              dirty := []
              originalRoot := root }) := by
  rcases earlier : db.dbErr with _ | error
  · refine .inr ⟨rfl, ?_⟩
    simp only [commit, earlier, bind, Except.bind] at ran
    split at ran
    · cases ran
    · next pair rooted =>
      rcases pair with ⟨root, mid⟩
      refine ⟨root, mid, rooted, ?_⟩
      split at ran
      · cases ran
      · next outcome looped =>
        rcases outcome with ⟨error | codes, last⟩
        · cases ran
          exact .inl ⟨error, looped, rfl⟩
        · cases ran
          exact .inr ⟨codes, last, looped, rfl, rfl⟩
  · simp only [commit, earlier] at ran
    cases ran
    exact .inl ⟨error, rfl, rfl, rfl⟩

end OperationDB

end Octopus
