import Octopus.OperationDB.Ledger

/-!
# The state database refines the ledger

The getters return what the ledger holds and leave it unchanged, and each write is the
ledger operation of the same name.
-/

namespace Octopus.OperationDB

open OperationObject Function OperationObject

/-- The object that the database has for an address, in the cache or in the trie. -/
def find (db : OperationDB) (address : Address) : Option OperationObject :=
  (db.objects address).or ((db.trie address).map .ofAccount)

section

variable (db : OperationDB) (addr : Address)

@[simp]
theorem find_setOperationObject (obj : OperationObject) :
    (db.setOperationObject addr obj).find = update db.find addr (some obj) := by
  funext other
  by_cases same : other = addr
  · subst same
    simp [find, setOperationObject]
  · simp [find, setOperationObject, same]

@[simp]
theorem database_setOperationObject (obj : OperationObject) :
    (db.setOperationObject addr obj).database = db.database := rfl

variable (entry : JournalEntry)

@[simp]
theorem database_append : (db.append entry).database = db.database := rfl

@[simp]
theorem database_record (obj : OperationObject) :
    (db.record entry addr obj).database = db.database := rfl

@[simp]
theorem getOperationObject_fst : (db.getOperationObject addr).1 = db.find addr := by
  unfold getOperationObject find
  split
  · simp [*]
  · split <;> simp [*]

@[simp]
theorem database_getOperationObject : (db.getOperationObject addr).2.database = db.database := by
  unfold getOperationObject
  split
  · rfl
  · split <;> rfl

@[simp]
theorem find_getOperationObject : (db.getOperationObject addr).2.find = db.find := by
  unfold getOperationObject
  split
  · rfl
  · split
    · rfl
    · simp [find, *]

theorem getOperationObject_snd :
    (db.getOperationObject addr).2 = db ∨ ∃ obj, db.find addr = some obj ∧
      (db.getOperationObject addr).2 = db.setOperationObject addr obj := by
  unfold getOperationObject
  split
  · exact .inl rfl
  · next uncached =>
    split
    · exact .inl rfl
    · next data stored => exact .inr ⟨.ofAccount data, by simp [find, uncached, stored], rfl⟩

theorem of_getOperationObject {found : Option OperationObject} {db mid : OperationDB}
    {addr : Address} (read : db.getOperationObject addr = (found, mid)) :
    db.find addr = found ∧ mid.find = db.find ∧ mid.database = db.database := by
  have first := db.getOperationObject_fst addr
  have same := db.find_getOperationObject addr
  have disk := db.database_getOperationObject addr
  rw [read] at first same disk
  exact ⟨first.symm, same, disk⟩

theorem getOperationObject_of_absent {db : OperationDB} {addr : Address}
    (absent : db.find addr = none) : db.getOperationObject addr = (none, db) := by
  have unstored : db.objects addr = none ∧ db.trie addr = none := by
    simpa [find] using absent
  simp [getOperationObject, unstored.1, unstored.2]

theorem readObject_fst_find {Value : Type} (absent : Value)
    (read : OperationObject → Database → Value × OperationObject) :
    (db.readObject addr absent read).1 =
      (db.find addr).elim absent fun obj => (read obj db.database).1 := by
  rcases looked : db.getOperationObject addr with ⟨_ | _, _⟩
  all_goals
    rcases of_getOperationObject looked with ⟨found, -, disk⟩
    simp [readObject, looked, found, disk]

theorem getState_fst_find (key : Hash) : (db.getState addr key).1 =
      (db.find addr).elim 0 fun obj => obj.shownState db.database key := by
  rw [getState, readObject_fst_find]
  simp

end

variable [Crypto]

def ledger (db : OperationDB) : Ledger :=
  fun address => (db.find address).map fun object => object.account db.database

variable (db : OperationDB) (addr : Address)

theorem of_getOrNewOperationObject {obj : OperationObject} {db mid : OperationDB}
    {addr : Address} (read : db.getOrNewOperationObject addr = (obj, mid)) :
    db.getOperationObject addr = (some obj, mid) ∨ db.find addr = none ∧
      obj = .blank ∧ mid = db.record (.createObject addr) addr .blank := by
  rcases looked : db.getOperationObject addr with ⟨_ | _, _⟩
  · have absent := (of_getOperationObject looked).1
    simp only [getOrNewOperationObject, createObject, getOperationObject_of_absent absent] at read
    cases read
    exact .inr ⟨absent, rfl, rfl⟩
  · simp only [getOrNewOperationObject, looked] at read
    cases read
    exact .inl rfl

theorem createAccount_cases :
    (db.find addr = none ∧ db.createAccount addr = db.record (.createObject addr) addr .blank) ∨
      ∃ prev mid, db.getOperationObject addr = (some prev, mid) ∧
        db.createAccount addr = mid.record (.resetObject addr prev) addr
          (blank.setBalance prev.data.balance) := by
  rcases read : db.getOperationObject addr with ⟨_ | prev, mid⟩
  · have absent := (of_getOperationObject read).1
    refine .inl ⟨absent, ?_⟩
    simp [createAccount, createObject, getOperationObject_of_absent absent]
  · refine .inr ⟨prev, mid, rfl, ?_⟩
    simp [createAccount, createObject, read, record, setOperationObject]

@[simp]
theorem ledger_setOperationObject (obj : OperationObject) :
    (db.setOperationObject addr obj).ledger =
      update db.ledger addr (some (obj.account db.database)) := by
  funext other
  by_cases same : other = addr
  · subst same
    simp [ledger]
  · simp [ledger, same]

section

variable (entry : JournalEntry)

@[simp]
theorem ledger_append : (db.append entry).ledger = db.ledger := rfl

@[simp]
theorem ledger_record (obj : OperationObject) : (db.record entry addr obj).ledger =
      update db.ledger addr (some (obj.account db.database)) := by
  simp [record]

omit entry in
theorem ledger_congr {old new : OperationDB} (find : new.find = old.find)
    (disk : new.database = old.database) : new.ledger = old.ledger := by
  funext other
  simp [ledger, find, disk]

@[simp]
theorem ledger_getOperationObject : (db.getOperationObject addr).2.ledger = db.ledger :=
  ledger_congr (by simp) (by simp)

theorem ledger_of_find {obj : OperationObject} (found : db.find addr = some obj) :
    db.ledger addr = some (obj.account db.database) := by
  simp [ledger, found]

theorem ledger_of_find_none (absent : db.find addr = none) : db.ledger addr = none := by
  simp [ledger, absent]

theorem ledger_setOperationObject_of_account {obj changed : OperationObject}
    (found : db.find addr = some obj)
    (same : changed.account db.database = obj.account db.database) :
    (db.setOperationObject addr changed).ledger = db.ledger := by
  rw [ledger_setOperationObject, update_eq_self_iff, same, db.ledger_of_find addr found]

theorem getOrNewOperationObject_spec {obj : OperationObject} {new : OperationDB}
    (looked : db.getOrNewOperationObject addr = (obj, new)) :
    obj.account db.database = (db.ledger addr).getD .blank ∧ new.find addr = some obj ∧
      new.ledger = db.ledger.touch addr ∧ new.database = db.database := by
  rcases of_getOrNewOperationObject looked with read | ⟨absent, rfl, rfl⟩
  · rcases of_getOperationObject read with ⟨found, same, sameDatabase⟩
    have here := db.ledger_of_find addr found
    refine ⟨by simp [here], by rw [same, found], ?_, sameDatabase⟩
    rw [ledger_congr same sameDatabase, Ledger.touch_of_exists (by simp [here])]
  · have unknown := db.ledger_of_find_none addr absent
    refine ⟨by simp [unknown], by simp [record], ?_, rfl⟩
    rw [ledger_record, Ledger.touch, Ledger.modify, unknown, account_blank]
    rfl

theorem ledger_update_touch {old new : OperationDB}
    (touched : new.ledger = old.ledger.touch addr) (account : Account) :
    update new.ledger addr (some account) = update old.ledger addr (some account) := by
  rw [touched, Ledger.touch, Ledger.modify, update_idem]

theorem database_getOrNewOperationObject :
    (db.getOrNewOperationObject addr).2.database = db.database := by
  exact (db.getOrNewOperationObject_spec addr rfl).2.2.2

variable {obj : OperationObject} {new : OperationDB}
  (looked : db.getOrNewOperationObject addr = (obj, new)) {change : Account → Account}
  {changed : OperationObject}
  (shown : changed.account db.database = change (obj.account db.database))
include looked shown

theorem ledger_setOperationObject_modify :
    (new.setOperationObject addr changed).ledger = db.ledger.modify addr change := by
  rcases db.getOrNewOperationObject_spec addr looked with ⟨old, -, touched, sameDatabase⟩
  rw [ledger_setOperationObject, sameDatabase, ledger_update_touch addr touched,
    Ledger.modify, shown, old]

theorem ledger_record_modify :
    (new.record entry addr changed).ledger = db.ledger.modify addr change := by
  rw [ledger_record, ← ledger_setOperationObject,
    db.ledger_setOperationObject_modify addr looked shown]

end

theorem ledger_addBalance (amount : Int) :
    (db.addBalance addr amount).ledger = db.ledger.addBalance addr amount := by
  rcases looked : db.getOrNewOperationObject addr with ⟨_, _⟩
  by_cases zero : amount = 0
  · rcases db.getOrNewOperationObject_spec addr looked with ⟨-, -, touched, -⟩
    simp [addBalance, looked, zero, touched, Ledger.touch, Ledger.addBalance, Ledger.modify]
  · simp only [addBalance, looked, zero]
    exact db.ledger_record_modify addr _ looked rfl

theorem subBalance_eq_addBalance (amount : Int) :
    db.subBalance addr amount = db.addBalance addr (-amount) := by
  simp [subBalance, addBalance, sub_eq_add_neg]

theorem ledger_subBalance (amount : Int) :
    (db.subBalance addr amount).ledger = db.ledger.addBalance addr (-amount) := by
  rw [subBalance_eq_addBalance, ledger_addBalance]

theorem ledger_setNonce (nonce : Nat) :
    (db.setNonce addr nonce).ledger = db.ledger.setNonce addr nonce := by
  rcases looked : db.getOrNewOperationObject addr with ⟨_, _⟩
  simp only [setNonce, looked]
  exact db.ledger_record_modify addr _ looked rfl

theorem ledger_setCode (code : Bytes) :
    (db.setCode addr code).ledger = db.ledger.setCode addr code := by
  rcases looked : db.getOrNewOperationObject addr with ⟨_, _⟩
  have sameDatabase := db.database_getOrNewOperationObject addr
  rw [looked] at sameDatabase
  simp only [setCode, looked]
  refine db.ledger_record_modify addr _ looked ?_
  rw [account_setCode, sameDatabase, account_getCode]

theorem ledger_setState (key value : Hash) :
    (db.setState addr key value).ledger = db.ledger.setState addr key value := by
  rcases looked : db.getOrNewOperationObject addr with ⟨obj, new⟩
  have sameDatabase := db.database_getOrNewOperationObject addr
  rw [looked] at sameDatabase
  simp only [setState, looked]
  rcases fake : obj.fakeStorage with _ | storage
  · have noFake := obj.fakeStorage_getState new.database key
    rw [fake] at noFake
    by_cases same : (obj.getState new.database key).1 = value
    · simp only [same]
      refine db.ledger_setOperationObject_modify addr looked ?_
      rw [sameDatabase] at same ⊢
      rw [account_getState]
      refine Account.ext rfl rfl rfl rfl ?_
      rw [getState_fst] at same
      exact (update_eq_self_iff.mpr same.symm).symm
    · simp only [same]
      refine db.ledger_record_modify addr _ looked ?_
      rw [account_setState _ _ _ _ noFake, sameDatabase, account_getState]
  · refine db.ledger_setOperationObject_modify addr looked ?_
    refine Account.ext rfl rfl rfl rfl (funext fun other => ?_)
    by_cases same : other = key
    · subst same
      simp [account, shownState]
    · simp [account, shownState, fake, same]

theorem ledger_suicide : (db.suicide addr).2.ledger = db.ledger.suicide addr := by
  rcases looked : db.getOperationObject addr with ⟨_ | _, _⟩
  all_goals
    rcases of_getOperationObject looked with ⟨found, same, sameDatabase⟩
    have sameLedger := ledger_congr same sameDatabase
  · have absent := db.ledger_of_find_none addr found
    simp only [suicide, looked, sameLedger, Ledger.suicide, absent]
    exact (update_eq_self_iff.mpr absent.symm).symm
  · simp only [suicide, looked, ledger_record, sameLedger, sameDatabase, Ledger.suicide,
      db.ledger_of_find addr found]
    rfl

theorem ledger_createAccount : (db.createAccount addr).ledger = db.ledger.createAccount addr := by
  rcases db.createAccount_cases addr with ⟨absent, same⟩ | ⟨prev, mid, read, same⟩
  · simp [same, Ledger.createAccount, Ledger.modify, db.ledger_of_find_none addr absent]
  rcases of_getOperationObject read with ⟨found, find, disk⟩
  simp only [same, ledger_record, ledger_congr find disk, disk, Ledger.createAccount,
    Ledger.modify, db.ledger_of_find addr found]
  congr 2
  rw [← account_blank db.database]
  rfl

section Getters

variable {Value : Type} {absent : Value}
  {read : OperationObject → Database → Value × OperationObject}

theorem ledger_readObject
    (caches : ∀ obj disk, (read obj disk).2.account disk = obj.account disk) :
    (db.readObject addr absent read).2.ledger = db.ledger := by
  rcases looked : db.getOperationObject addr with ⟨_ | obj, new⟩
  all_goals
    rcases of_getOperationObject looked with ⟨found, same, sameDatabase⟩
    rw [← ledger_congr same sameDatabase]
    simp only [readObject, looked]
  exact new.ledger_setOperationObject_of_account addr (by rw [same, found])
    (caches obj new.database)

theorem readObject_fst {part : Account → Value} (reads : ∀ obj disk,
      (read obj disk).1 = part (obj.account disk)) :
    (db.readObject addr absent read).1 = (db.ledger addr).elim absent part := by
  rw [readObject_fst_find, ledger, Option.elim_map]
  simp only [reads]
  rfl

@[simp]
theorem getBalance_fst : (db.getBalance addr).1 = db.ledger.balance addr :=
  db.readObject_fst addr fun _ _ => rfl

@[simp]
theorem getNonce_fst : (db.getNonce addr).1 = db.ledger.nonce addr :=
  db.readObject_fst addr fun _ _ => rfl

@[simp]
theorem getCodeHash_fst : (db.getCodeHash addr).1 = db.ledger.codeHash addr :=
  db.readObject_fst addr fun _ _ => rfl

@[simp]
theorem getCode_fst : (db.getCode addr).1 = db.ledger.code addr :=
  db.readObject_fst addr fun obj disk => obj.getCode_fst disk

variable (key : Hash)

@[simp]
theorem getState_fst : (db.getState addr key).1 = db.ledger.storage addr key :=
  db.readObject_fst addr fun obj disk => obj.getState_fst disk key

@[simp]
theorem exist_fst : (db.exist addr).1 = (db.ledger addr).isSome := by
  have reads : (db.exist addr).1 = (db.ledger addr).elim false fun _ => true :=
    db.readObject_fst addr fun _ _ => rfl
  rw [reads]
  cases db.ledger addr <;> rfl

@[simp]
theorem ledger_getBalance : (db.getBalance addr).2.ledger = db.ledger :=
  db.ledger_readObject addr fun _ _ => rfl

@[simp]
theorem ledger_getNonce : (db.getNonce addr).2.ledger = db.ledger :=
  db.ledger_readObject addr fun _ _ => rfl

@[simp]
theorem ledger_getCodeHash : (db.getCodeHash addr).2.ledger = db.ledger :=
  db.ledger_readObject addr fun _ _ => rfl

end Getters

end Octopus.OperationDB
