import Octopus.OperationDB.State

/-!
# The ledger that a state database presents

`OperationDB.ledger` is what can be observed through the getters of a state database,
whatever is cached, journaled or still in the trie.
-/

namespace Octopus

abbrev Ledger := Address → Option Account

theorem Database.openStorageTrie_of_kept {before after : Database}
    (kept : ∀ root trie, before.storageTries root = some trie →
      after.storageTries root = some trie) {root : Hash} {trie : StorageTrie}
    (opens : before.openStorageTrie root = some trie) : after.openStorageTrie root = some trie := by
  unfold Database.openStorageTrie at opens ⊢
  split at opens
  · next special => rwa [if_pos special]
  · next ordinary =>
    rw [if_neg ordinary]
    exact kept root trie opens

theorem Database.contractCode_eq_some {database : Database} {codeHash : Hash} {code : Bytes}
    (found : database.contractCode codeHash = some code) :
    database.codes codeHash = some code ∧ code ≠ [] := by
  unfold Database.contractCode at found
  split at found
  · next byte rest stored =>
    cases found
    exact ⟨stored, by simp⟩
  · cases found

theorem Database.contractCode_of_stored {database : Database} {codeHash : Hash} {code : Bytes}
    (stored : database.codes codeHash = some code) (nonempty : code ≠ []) :
    database.contractCode codeHash = some code := by
  rcases code with _ | ⟨_, _⟩
  · exact absurd rfl nonempty
  · simp [Database.contractCode, stored]

namespace OperationObject

variable (object : OperationObject) (database : Database)

def shownTrie : StorageTrie :=
  object.trie.getD ((database.openStorageTrie object.data.root).getD fun _ => 0)

def shownCommitted (key : Hash) : Hash :=
  match object.fakeStorage with
  | some fake => (fake.lookup key).getD 0
  | none =>
    ((object.pendingStorage.lookup key).or (object.originStorage.lookup key)).getD
      (object.shownTrie database key)

def shownState (key : Hash) : Hash :=
  match object.fakeStorage with
  | some fake => (fake.lookup key).getD 0
  | none => (object.dirtyStorage.lookup key).getD (object.shownCommitted database key)

section

variable (data : StateAccount)

theorem root_ofAccount_ne_zero : (ofAccount data).data.root ≠ 0 := by
  unfold ofAccount
  dsimp only
  split
  · decide
  · next nonzero => exact nonzero

theorem ofAccount_ofAccount : ofAccount (ofAccount data).data = ofAccount data := by
  have same : (ofAccount (ofAccount data).data).data.root = (ofAccount data).data.root :=
    if_neg (root_ofAccount_ne_zero data)
  exact congrArg (fun root => ({ data := { (ofAccount data).data with root := root } } :
    OperationObject)) same

theorem openStorageTrie_ofAccount (database : Database) :
    database.openStorageTrie (ofAccount data).data.root = database.openStorageTrie data.root := by
  by_cases zero : data.root = 0
  · have renamed : (ofAccount data).data.root = emptyRoot := if_pos zero
    simp [Database.openStorageTrie, renamed, zero]
  · have same : (ofAccount data).data.root = data.root := if_neg zero
    rw [same]

theorem shownState_ofAccount (database : Database) (key : Hash) :
    (ofAccount data).shownState database key =
      ((database.openStorageTrie data.root).getD fun _ => 0) key := by
  rw [← openStorageTrie_ofAccount]
  simp [shownState, shownCommitted, shownTrie, ofAccount]

end

@[simp]
theorem getTrie_fst : (object.getTrie database).1 = object.shownTrie database := by
  unfold getTrie shownTrie
  split
  · simp [*]
  · split <;> simp [*]

variable (key : Hash)

@[simp]
theorem getCommittedState_fst :
    (object.getCommittedState database key).1 = object.shownCommitted database key := by
  unfold getCommittedState shownCommitted
  split
  · simp [*]
  · split
    · simp [*]
    · split <;> simp [*]

@[simp]
theorem getState_fst : (object.getState database key).1 = object.shownState database key := by
  unfold getState shownState
  split
  · simp [*]
  · split <;> simp [*]

theorem getCode_snd [Crypto] : (object.getCode database).2 =
    { object with code := (object.getCode database).2.code } := by
  unfold getCode
  split
  · rfl
  · split
    · rfl
    · split <;> rfl

theorem codeSize_snd [Crypto] : (object.codeSize database).2 =
    { object with dbErr := (object.codeSize database).2.dbErr } := by
  unfold codeSize
  split
  · rfl
  · split
    · rfl
    · split <;> rfl

theorem getTrie_snd : (object.getTrie database).2 =
    { object with
      trie := some (object.shownTrie database)
      dbErr := (object.getTrie database).2.dbErr } := by
  unfold getTrie shownTrie
  split
  · next opened => rw [opened, Option.getD_some, ← opened]
  · next unopened => split <;> simp [setError, *]

theorem getCommittedState_snd : (object.getCommittedState database key).2 = object ∨
    (object.getCommittedState database key).2 = (object.getTrie database).2 := by
  unfold getCommittedState
  split
  · exact .inl rfl
  split
  · exact .inl rfl
  · split
    · exact .inl rfl
    · exact .inr rfl

theorem getState_snd : (object.getState database key).2 = object ∨
    (object.getState database key).2 = (object.getTrie database).2 := by
  unfold getState
  split
  · exact .inl rfl
  · split
    · exact .inl rfl
    · exact object.getCommittedState_snd database key

theorem fakeStorage_getState :
    (object.getState database key).2.fakeStorage = object.fakeStorage := by
  rcases object.getState_snd database key with same | same
  · rw [same]
  · rw [same, getTrie_snd]

structure SameMarks (before after : OperationObject) : Prop where
  suicided : after.suicided = before.suicided
  deleted : after.deleted = before.deleted

theorem sameMarks_getCode [Crypto] : object.SameMarks (object.getCode database).2 := by
  rw [getCode_snd]
  exact ⟨rfl, rfl⟩

theorem sameMarks_codeSize [Crypto] : object.SameMarks (object.codeSize database).2 := by
  rw [codeSize_snd]
  exact ⟨rfl, rfl⟩

theorem data_getTrie : (object.getTrie database).2.data = object.data := by
  rw [getTrie_snd]

theorem sameMarks_getTrie : object.SameMarks (object.getTrie database).2 := by
  rw [getTrie_snd]
  exact ⟨rfl, rfl⟩

theorem sameMarks_getCommittedState :
    object.SameMarks (object.getCommittedState database key).2 := by
  rcases object.getCommittedState_snd database key with same | same
  · rw [same]
    exact ⟨rfl, rfl⟩
  · rw [same]
    exact object.sameMarks_getTrie database

theorem data_getState : (object.getState database key).2.data = object.data := by
  rcases object.getState_snd database key with same | same
  · rw [same]
  · rw [same, data_getTrie]

theorem sameMarks_getState : object.SameMarks (object.getState database key).2 := by
  rcases object.getState_snd database key with same | same
  · rw [same]
    exact ⟨rfl, rfl⟩
  · rw [same]
    exact object.sameMarks_getTrie database

end OperationObject

variable [Crypto]

def Account.blank : Account where
  nonce := 0
  balance := 200000000
  codeHash := emptyCodeHash
  code := []
  storage := fun _ => 0

namespace Ledger

variable (ledger : Ledger) (address : Address)

def balance : Int :=
  (ledger address).elim 0 Account.balance

def nonce : Nat :=
  (ledger address).elim 0 Account.nonce

def codeHash : Hash :=
  (ledger address).elim 0 Account.codeHash

def code : Bytes :=
  (ledger address).elim [] Account.code

def storage (key : Hash) : Hash :=
  (ledger address).elim 0 fun account => account.storage key

def modify (change : Account → Account) : Ledger :=
  Function.update ledger address (some (change ((ledger address).getD .blank)))

def touch : Ledger :=
  ledger.modify address id

def addBalance (amount : Int) : Ledger :=
  ledger.modify address fun account => { account with balance := account.balance + amount }

def setNonce (nonce : Nat) : Ledger :=
  ledger.modify address fun account => { account with nonce := nonce }

def setCode (code : Bytes) : Ledger :=
  ledger.modify address fun account =>
    { account with codeHash := Crypto.keccak256 code, code := code }

def setState (key value : Hash) : Ledger :=
  ledger.modify address fun account =>
    { account with storage := Function.update account.storage key value }

def createAccount : Ledger :=
  ledger.modify address fun account => { Account.blank with balance := account.balance }

def suicide : Ledger :=
  Function.update ledger address
    ((ledger address).map fun account => { account with balance := 0 })

def transfer (sender recipient : Address) (amount : Int) : Ledger :=
  (ledger.addBalance sender (-amount)).addBalance recipient amount

theorem touch_of_exists {ledger : Ledger} {address : Address}
    (here : (ledger address).isSome) : ledger.touch address = ledger := by
  rcases Option.isSome_iff_exists.mp here with ⟨_, found⟩
  rw [touch, modify, found]
  exact Function.update_eq_self_iff.mpr found.symm

end Ledger

namespace OperationObject

variable (object : OperationObject) (database : Database)

def shownCode : Bytes :=
  object.code.getD
    (if object.data.codeHash = emptyCodeHash then []
      else (database.contractCode object.data.codeHash).getD [])

def account : Account where
  nonce := object.data.nonce
  balance := object.data.balance
  codeHash := object.data.codeHash
  code := object.shownCode database
  storage := object.shownState database

@[simp]
theorem account_blank : blank.account database = .blank := by
  refine Account.ext rfl rfl rfl ?_ (funext fun key => ?_)
  · simp [account, blank, Account.blank, shownCode]
  · simp [account, blank, Account.blank, shownState, shownCommitted, shownTrie,
      Database.openStorageTrie]

@[simp]
theorem getCode_fst : (object.getCode database).1 = object.shownCode database := by
  unfold getCode shownCode
  split
  · simp [*]
  · split
    · simp [*]
    · split <;> simp [*]

@[simp]
theorem account_getCode :
    (object.getCode database).2.account database = object.account database := by
  unfold getCode
  split
  · rfl
  split
  · rfl
  · split
    · exact Account.ext rfl rfl rfl (by simp [account, shownCode, *]) rfl
    · rfl

@[simp]
theorem account_codeSize :
    (object.codeSize database).2.account database = object.account database := by
  rw [codeSize_snd]
  rfl

@[simp]
theorem account_getTrie :
    (object.getTrie database).2.account database = object.account database := by
  rw [getTrie_snd]
  rfl

@[simp]
theorem account_getCommittedState (key : Hash) :
    (object.getCommittedState database key).2.account database = object.account database := by
  rcases object.getCommittedState_snd database key with same | same
  · rw [same]
  · rw [same, account_getTrie]

@[simp]
theorem account_getState (key : Hash) :
    (object.getState database key).2.account database = object.account database := by
  rcases object.getState_snd database key with same | same
  · rw [same]
  · rw [same, account_getTrie]

theorem account_setCode (code : Bytes) :
    (object.setCode (Crypto.keccak256 code) code).account database =
      { object.account database with codeHash := Crypto.keccak256 code, code := code } := by
  refine Account.ext rfl rfl rfl ?_ rfl
  by_cases noCode : code = []
  · subst noCode
    simp [account, shownCode, setCode, emptyCodeHash]
  · simp [account, shownCode, setCode, noCode]

theorem account_setState (key value : Hash) (noFake : object.fakeStorage = none) :
    (object.setState key value).account database =
      { object.account database with
        storage := Function.update (object.account database).storage key value } := by
  refine Account.ext rfl rfl rfl rfl (funext fun other => ?_)
  by_cases same : other = key
  · subst same
    simp [account, shownState, setState, noFake]
  · simp [account, shownState, setState, same, shownCommitted, shownTrie]

end OperationObject

end Octopus
