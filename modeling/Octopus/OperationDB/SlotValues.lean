import Octopus.OperationDB.Operations

/-!
# The values of a storage slot

A slot has a current and a committed value.  The getters leave both as they are; a write
sets the current one, and under a debugging storage both.
-/

namespace Octopus

open Function

/-- What the getters return for a slot, and whether its account has a debugging
storage. -/
structure Slot where
  committed : Hash := 0
  current : Hash := 0
  debugged : Bool := false

def Slot.write (slot : Slot) (value : Hash) : Slot :=
  { slot with committed := if slot.debugged then value else slot.committed, current := value }

namespace OperationObject

variable (object : OperationObject) (database : Database)

def slot (key : Hash) : Slot where
  committed := object.shownCommitted database key
  current := object.shownState database key
  debugged := object.fakeStorage.isSome

theorem slot_getTrie : (object.getTrie database).2.slot database = object.slot database := by
  rw [getTrie_snd]
  rfl

theorem slot_getCommittedState (key : Hash) :
    (object.getCommittedState database key).2.slot database = object.slot database := by
  rcases object.getCommittedState_snd database key with same | same
  · rw [same]
  · rw [same, slot_getTrie]

theorem slot_getState (key : Hash) :
    (object.getState database key).2.slot database = object.slot database := by
  rcases object.getState_snd database key with same | same
  · rw [same]
  · rw [same, slot_getTrie]

end OperationObject

namespace OperationDB

variable (db : OperationDB) (address : Address)

def slot : Hash → Slot :=
  (db.find address).elim (fun _ => {}) fun object => object.slot db.database

section

variable (key : Hash)

theorem getCommittedState_fst_slot :
    (db.getCommittedState address key).1 = (db.slot address key).committed := by
  rw [getCommittedState, readObject_fst_find, slot]
  rcases db.find address with _ | object
  · rfl
  · simp [OperationObject.slot]

theorem getState_fst_slot : (db.getState address key).1 = (db.slot address key).current := by
  rw [getState_fst_find, slot]
  rcases db.find address with _ | object <;> rfl

theorem slot_congr {old new : OperationDB} (find : new.find = old.find)
    (database : new.database = old.database) : new.slot = old.slot := by
  funext other
  rw [slot, slot, find, database]

/-- Nothing that the price of a storage access depends on has changed. -/
structure Undisturbed (before after : OperationDB) : Prop where
  slot : after.slot = before.slot
  refund : after.refund = before.refund
  accessList : after.accessList = before.accessList

theorem Undisturbed.trans {old mid new : OperationDB}
    (first : Undisturbed old mid) (second : Undisturbed mid new) : Undisturbed old new :=
  ⟨second.slot.trans first.slot, second.refund.trans first.refund,
    second.accessList.trans first.accessList⟩

theorem slot_setOperationObject (object : OperationObject) :
    (db.setOperationObject address object).slot =
      update db.slot address (object.slot db.database) := by
  funext other
  rw [slot, find_setOperationObject]
  by_cases same : other = address
  · subst same
    simp
  · simp [same, slot]

theorem undisturbed_getOperationObject : Undisturbed db (db.getOperationObject address).2 := by
  have slots := slot_congr (db.find_getOperationObject address)
    (db.database_getOperationObject address)
  rcases db.getOperationObject_snd address with same | ⟨_, -, same⟩
  · rw [same] at slots ⊢
    exact ⟨slots, rfl, rfl⟩
  · rw [same] at slots ⊢
    exact ⟨slots, rfl, rfl⟩

theorem undisturbed_readObject {Value : Type} (absent : Value)
    (read : OperationObject → Database → Value × OperationObject)
    (kept : ∀ object, (read object db.database).2.slot db.database = object.slot db.database) :
    Undisturbed db (db.readObject address absent read).2 := by
  have loaded := db.undisturbed_getOperationObject address
  rcases found : db.getOperationObject address with ⟨_ | object, mid⟩
  · simpa only [readObject, found] using loaded
  rcases of_getOperationObject found with ⟨looked, -, database⟩
  rw [found] at loaded
  simp only [readObject, found]
  refine loaded.trans ⟨?_, rfl, rfl⟩
  rw [slot_setOperationObject, update_eq_self_iff, database, kept, loaded.slot, slot, looked]
  rfl

theorem undisturbed_getState : Undisturbed db (db.getState address key).2 :=
  db.undisturbed_readObject address 0 _ fun object => object.slot_getState db.database key

theorem undisturbed_getCommittedState : Undisturbed db (db.getCommittedState address key).2 :=
  db.undisturbed_readObject address 0 _ fun object => object.slot_getCommittedState db.database key

end

variable [Crypto]

end OperationDB

end Octopus
