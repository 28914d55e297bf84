import Octopus.Library.Undo
import Octopus.OperationDB.Operations

/-!
# Reverting the journal

States are compared by what they show: reverting leaves caches filled, and slots in the
dirty layer that hold their old value.  Up to that, the entries of any sequence of
operations lead back to the state before it.  Writes to a debugging storage are not
journaled, so the slots of such an account are left out of the comparison.
-/

namespace Octopus

open Library OperationObject

variable {change : OperationObject → OperationObject} {mid undone : OperationDB}
  {entry : JournalEntry}

namespace AccessList

def Coherent (list : AccessList) : Prop :=
  ∀ address index, list.addresses.lookup address = some (some index) → list.slots.getD index [] ≠ []

def shown (list : AccessList) : (Address → Option (Option Nat)) × List (List Hash) :=
  (fun address => list.addresses.lookup address, list.slots)

variable {list first second : AccessList} {addr : Address} {slot : Hash}

theorem shown_insert (list : AccessList) (addr : Address) (index : Option Nat)
    (slots : List (List Hash)) :
    shown { addresses := list.addresses.insert addr index, slots := slots } =
      (Function.update list.shown.1 addr (some index), slots) := by
  refine Prod.ext (funext fun other => ?_) rfl
  by_cases same : other = addr
  · subst same
    simp [shown]
  · simp [shown, same]

theorem shown_deleteAddress (list : AccessList) (addr : Address) :
    (list.deleteAddress addr).shown =
      (Function.update list.shown.1 addr none, list.shown.2) := by
  refine Prod.ext (funext fun other => ?_) rfl
  by_cases same : other = addr
  · subst same
    simp [shown, deleteAddress]
  · simp [shown, deleteAddress, same]

theorem deleteSlot_shown (same : first.shown = second.shown) {undone : AccessList}
    (ran : first.deleteSlot addr slot = .ok undone) :
    ∃ other, second.deleteSlot addr slot = .ok other ∧ undone.shown = other.shown := by
  have addresses : first.addresses.lookup addr = second.addresses.lookup addr :=
    congrFun (congrArg Prod.fst same) addr
  have slots : first.slots = second.slots := congrArg Prod.snd same
  simp only [AccessList.deleteSlot, addresses, slots] at ran ⊢
  rcases found : second.addresses.lookup addr with _ | _ | index
  · simp [found] at ran
  · simp [found] at ran
  · simp only [found] at ran ⊢
    split_ifs at ran ⊢ with within last
    · cases ran
      exact ⟨_, rfl, by rw [shown_insert, shown_insert, same]⟩
    · cases ran
      exact ⟨_, rfl, Prod.ext (congrArg Prod.fst same :) rfl⟩

theorem Coherent.addAddress (coherent : list.Coherent) (addr : Address) :
    (list.addAddress addr).2.Coherent := by
  unfold AccessList.addAddress
  split
  · exact coherent
  intro other index found
  by_cases same : other = addr
  · subst same
    simp at found
  · simp only [AList.lookup_insert_ne same] at found
    exact coherent other index found

theorem Coherent.lt_length (coherent : list.Coherent) {index : Nat}
    (found : list.addresses.lookup addr = some (some index)) : index < list.slots.length := by
  by_contra beyond
  apply coherent addr index found
  simp [List.getElem?_eq_none (Nat.not_lt.mp beyond)]

theorem Coherent.addSlot (coherent : list.Coherent) (addr : Address) (slot : Hash) :
    (list.addSlot addr slot).2.Coherent := by
  unfold AccessList.addSlot
  split
  · next index known =>
    split
    · exact coherent
    intro other pos found
    by_cases same : pos = index
    · subst same
      simp [coherent.lt_length known]
    · simpa [Ne.symm same] using
        coherent other pos found
  · intro other pos found
    by_cases same : other = addr
    · subst same
      simp only [AList.lookup_insert, Option.some.injEq] at found
      simp [← found]
    · simp only [AList.lookup_insert_ne same] at found
      simpa [List.getElem?_append_left (coherent.lt_length found)] using coherent other pos found

theorem deleteSlot_of_new (list : AccessList) (addr : Address) (slot : Hash) :
    AccessList.deleteSlot
      { addresses := list.addresses.insert addr (some list.slots.length)
        slots := list.slots ++ [[slot]] } addr slot =
      .ok { addresses := (list.addresses.insert addr (some list.slots.length)).insert addr none
            slots := list.slots } := by
  simp [AccessList.deleteSlot]

/-- What `AddSlot` adds is taken away again by `DeleteSlot`, and by
`DeleteAddress` if the address is new too. -/
theorem addSlot_cases (coherent : list.Coherent) (addr : Address) (slot : Hash) :
    list.addSlot addr slot = ((false, false), list) ∨
      (∃ added undone, list.addSlot addr slot = ((false, true), added) ∧
        added.deleteSlot addr slot = .ok undone ∧ undone.shown = list.shown) ∨
      ∃ added undone, list.addSlot addr slot = ((true, true), added) ∧
        added.deleteSlot addr slot = .ok undone ∧
        (undone.deleteAddress addr).shown = list.shown := by
  have fresh := deleteSlot_of_new list addr slot
  have twice : shown
      { addresses := (list.addresses.insert addr (some list.slots.length)).insert addr none
        slots := list.slots } = (Function.update list.shown.1 addr (some none), list.slots) := by
    rw [shown_insert ⟨_, list.slots⟩, shown_insert, Function.update_idem]
  rcases known : list.addresses.lookup addr with _ | _ | index
  · refine .inr (.inr ⟨_, _, by simp [AccessList.addSlot, known], fresh, ?_⟩)
    rw [shown_deleteAddress, twice, Function.update_idem, ← known]
    exact Prod.ext (Function.update_eq_self ..) rfl
  · refine .inr (.inl ⟨_, _, by simp [AccessList.addSlot, known], fresh, ?_⟩)
    rw [twice, ← known]
    exact Prod.ext (Function.update_eq_self ..) rfl
  · by_cases listed : (list.slots.getD index []).contains slot
    · exact .inl (by simp only [AccessList.addSlot, known, listed, if_true])
    have within := coherent.lt_length known
    have several := coherent addr index known
    have restored : (list.slots.set index (slot :: list.slots.getD index [])).set index
        (list.slots.getD index []) = list.slots := by
      simp [within]
    refine .inr (.inl ⟨{ list with
      slots := list.slots.set index (slot :: list.slots.getD index []) }, list, ?_, ?_, rfl⟩)
    · simp only [AccessList.addSlot, known, listed, Bool.false_eq_true, if_false]
    · have head : (list.slots.set index (slot :: list.slots.getD index [])).getD index [] =
          slot :: list.slots.getD index [] := by
        simp [within]
      simp only [AccessList.deleteSlot, known, List.length_set, within, if_true, head,
        List.erase_cons_head, several, if_false, restored]

end AccessList

open AccessList

namespace OperationDB

variable {db new : OperationDB} {addr : Address} {obj : OperationObject}

def changeObject (db : OperationDB) (address : Address)
    (change : OperationObject → OperationObject) : Except Fault OperationDB :=
  match db.getOperationObject address with
  | (none, _) => .error nilDereference
  | (some object, db) => .ok (db.setOperationObject address (change object))

theorem getOperationObject_of_find {found : Option OperationObject}
    (here : db.find addr = found) :
    db.getOperationObject addr = (found, (db.getOperationObject addr).2) :=
  Prod.ext ((db.getOperationObject_fst addr).trans here) rfl

theorem changeObject_of_found (here : db.find addr = some obj)
    (change : OperationObject → OperationObject) :
    db.changeObject addr change =
      .ok ((db.getOperationObject addr).2.setOperationObject addr (change obj)) := by
  rw [changeObject, getOperationObject_of_find here]

theorem found_of_changeObject (ran : db.changeObject addr change = .ok new) :
    ∃ obj, db.find addr = some obj := by
  have looked := db.getOperationObject_fst addr
  rcases read : db.getOperationObject addr with ⟨_ | obj, _⟩
  · simp only [changeObject, read, reduceCtorEq] at ran
  · rw [read] at looked
    exact ⟨obj, looked.symm⟩

def forgetObject (db : OperationDB) (address : Address) : OperationDB :=
  { db with
    objects := Function.update db.objects address none
    dirty := db.dirty.erase address }

theorem find_forgetObject (db : OperationDB) (addr other : Address) :
    (db.forgetObject addr).find other =
      if other = addr then (db.trie addr).map .ofAccount else db.find other := by
  by_cases same : other = addr
  · subst same
    simp [forgetObject, find]
  · simp [forgetObject, find, same]

end OperationDB

def JournalEntry.revert : JournalEntry → OperationDB → Except Fault OperationDB
  | createObject account, db => .ok (db.forgetObject account)
  | resetObject account prev, db => .ok (db.setOperationObject account prev)
  | code account prevCode prevHash, db =>
    db.changeObject account fun object => object.setCode prevHash prevCode
  | balance account prev, db => db.changeObject account fun object => object.setBalance prev
  | nonce account prev, db => db.changeObject account fun object => object.setNonce prev
  | storage account key prevalue, db =>
    db.changeObject account fun object => object.setState key prevalue
  | suicide account prev prevBalance, db =>
    match db.getOperationObject account with
    | (none, db) => .ok db
    | (some object, db) =>
      .ok (db.setOperationObject account
        { object.setBalance prevBalance with suicided := prev })
  | accessListAddAccount address, db =>
    .ok { db with accessList := db.accessList.deleteAddress address }
  | accessListAddSlot address slot, db =>
    (db.accessList.deleteSlot address slot).map fun list => { db with accessList := list }
  | refund prev, db => .ok { db with refund := prev }
  | addLog txHash, db =>
    match db.logs txHash with
    | [] => .error (.panic "slice bounds out of range")
    | _ :: _ =>
      .ok { db with
        logs := Function.update db.logs txHash (db.logs txHash).dropLast
        logSize := db.logSize - 1 }

namespace OperationDB

variable {db : OperationDB} {addr : Address} {obj : OperationObject}

theorem revert_suicide_of_found (here : db.find addr = some obj) (prev : Bool)
    (prevBalance : Int) : (JournalEntry.suicide addr prev prevBalance).revert db =
      db.changeObject addr fun obj =>
        { obj.setBalance prevBalance with suicided := prev } := by
  rw [JournalEntry.revert, changeObject, getOperationObject_of_find here]

theorem revert_suicide_of_absent (absent : db.find addr = none) (prev : Bool)
    (prevBalance : Int) : (JournalEntry.suicide addr prev prevBalance).revert db =
      .ok (db.getOperationObject addr).2 := by
  rw [JournalEntry.revert, getOperationObject_of_find absent]

end OperationDB

section

variable [Crypto]

namespace OperationObject

/-- What is shown of an account, the slots of a debugging storage apart. -/
structure Shown where
  data : StateAccount
  code : Bytes
  suicided : Bool
  storage : Option (Hash → Hash)

def shown (object : OperationObject) (database : Database) : Shown where
  data := object.data
  code := object.shownCode database
  suicided := object.suicided
  storage := if object.fakeStorage.isSome then none else some (object.shownState database)

variable (obj : OperationObject) (disk : Database)

theorem shown_setState (key value : Hash) :
    (obj.setState key value).shown disk =
      { obj.shown disk with
        storage := (obj.shown disk).storage.map fun storage =>
          Function.update storage key value } := by
  rcases fakes : obj.fakeStorage with _ | fake
  · have wrote : (obj.setState key value).shownState disk =
        Function.update (obj.shownState disk) key value :=
      congrArg Account.storage (obj.account_setState disk key value fakes)
    have unfaked : (obj.setState key value).fakeStorage = none := fakes
    simp only [shown, wrote, fakes, unfaked]
    rfl
  · have faked : (obj.setState key value).fakeStorage = some fake := fakes
    simp only [shown, fakes, faked]
    rfl

theorem shown_setCode (codeHash : Hash) (code : Bytes) :
    (obj.setCode codeHash code).shown disk =
      { obj.shown disk with
        data := { (obj.shown disk).data with codeHash := codeHash }
        code := if code = [] then
            if codeHash = emptyCodeHash then [] else (disk.contractCode codeHash).getD []
          else code } := by
  by_cases noCode : code = []
  · simp [shown, setCode, shownCode, noCode]
    rfl
  · simp [shown, setCode, shownCode, noCode]
    rfl

theorem data_getCode : (obj.getCode disk).2.data = obj.data := by
  rw [getCode_snd]

theorem shown_getCode : (obj.getCode disk).2.shown disk = obj.shown disk := by
  have account := obj.account_getCode disk
  have fake : (obj.getCode disk).2.fakeStorage = obj.fakeStorage := by rw [getCode_snd]
  rw [shown, shown, data_getCode, (obj.sameMarks_getCode disk).suicided, fake,
    show (obj.getCode disk).2.shownCode disk = _ from congrArg Account.code account,
    show (obj.getCode disk).2.shownState disk = _ from congrArg Account.storage account]
  rfl

theorem shown_getState (key : Hash) :
    (obj.getState disk key).2.shown disk = obj.shown disk := by
  have account := obj.account_getState disk key
  rw [shown, shown, data_getState, (obj.sameMarks_getState disk key).suicided,
    fakeStorage_getState,
    show (obj.getState disk key).2.shownCode disk = _ from congrArg Account.code account,
    show (obj.getState disk key).2.shownState disk = _ from
      congrArg Account.storage account]
  rfl

theorem shown_setCode_back (loadable : obj.code ≠ some []) (codeHash : Hash) (code : Bytes) :
    (((obj.getCode disk).2.setCode codeHash code).setCode
      (obj.getCode disk).2.data.codeHash (obj.getCode disk).1).shown disk =
        obj.shown disk := by
  have same : (if (obj.getCode disk).1 = [] then if obj.data.codeHash = emptyCodeHash
      then [] else (disk.contractCode obj.data.codeHash).getD []
        else (obj.getCode disk).1) = obj.shownCode disk := by
    rw [getCode_fst]
    split
    · next noCode =>
      -- An empty code was not cached, so it is looked up as it was before.
      rcases cached : obj.code with _ | kept
      · simp [shownCode, cached]
      · have empty : kept = [] := by simpa [shownCode, cached] using noCode
        exact absurd (empty ▸ cached) loadable
    · rfl
  rw [shown_setCode, shown_setCode, shown_getCode, data_getCode, same]
  rfl

theorem shown_setState_back (key value : Hash) (noFake : obj.fakeStorage = none) :
    (((obj.getState disk key).2.setState key value).setState key
      (obj.getState disk key).1).shown disk = obj.shown disk := by
  rw [shown_setState, shown_setState, shown_getState, getState_fst]
  simp [shown, noFake]

end OperationObject

namespace OperationDB

structure View where
  database : Database
  trie : AccountTrie
  objects : Address → Option OperationObject.Shown
  refund : Nat
  logs : Hash → List Log
  logSize : Nat
  accessList : (Address → Option (Option Nat)) × List (List Hash)

def view (db : OperationDB) : View where
  database := db.database
  trie := db.trie
  objects address := (db.find address).map fun object => object.shown db.database
  refund := db.refund
  logs := db.logs
  logSize := db.logSize
  accessList := db.accessList.shown

variable {db first second new : OperationDB} {addr : Address}
  {obj changed other : OperationObject}

theorem view_setOperationObject (db : OperationDB) (addr : Address) (obj : OperationObject) :
    (db.setOperationObject addr obj).view =
      { db.view with objects :=
          Function.update db.view.objects addr (some (obj.shown db.view.database)) } := by
  have objects : (db.setOperationObject addr obj).view.objects =
      Function.update db.view.objects addr (some (obj.shown db.database)) := by
    funext place
    simp only [view]
    by_cases same : place = addr
    · subst same
      simp
    · simp [same]
  exact congrArg (fun objects => { db.view with objects := objects }) objects

theorem view_forgetObject (db : OperationDB) (addr : Address) :
    (db.forgetObject addr).view =
      { db.view with
        objects := Function.update db.view.objects addr
          ((db.view.trie addr).map fun data =>
            (ofAccount data).shown db.view.database) } := by
  have objects : (db.forgetObject addr).view.objects =
      Function.update db.view.objects addr ((db.trie addr).map fun data =>
        (ofAccount data).shown db.database) := by
    funext place
    simp only [view, find_forgetObject]
    by_cases same : place = addr
    · subst same
      simp [forgetObject, Function.comp_def]
    · simp [same, forgetObject]
  exact congrArg (fun objects => { db.view with objects := objects }) objects

theorem view_setOperationObject_of_shown (here : db.find addr = some obj)
    (same : changed.shown db.database = obj.shown db.database) :
    (db.setOperationObject addr changed).view = db.view := by
  have found : db.view.objects addr = some (changed.shown db.view.database) := by
    simp [view, here, same]
  rw [view_setOperationObject, ← found, Function.update_eq_self]

theorem view_getOperationObject (db : OperationDB) (addr : Address) :
    (db.getOperationObject addr).2.view = db.view := by
  rcases db.getOperationObject_snd addr with same | ⟨obj, here, same⟩
  · rw [same]
  · rw [same]
    exact view_setOperationObject_of_shown here rfl

section

variable (same : first.view = second.view)
include same

theorem found_of_view (here : first.find addr = some obj) :
    ∃ other, second.find addr = some other ∧
      other.shown second.database = obj.shown first.database := by
  have objects := congrFun (congrArg View.objects same) addr
  simp only [view, here] at objects
  exact Option.map_eq_some_iff.mp objects.symm

theorem changeObject_view
    (respects : ∀ {one two : OperationObject}, one.shown first.database = two.shown first.database →
      (change one).shown first.database = (change two).shown first.database)
    (ran : first.changeObject addr change = .ok undone) :
    ∃ other, second.changeObject addr change = .ok other ∧ undone.view = other.view := by
  rcases found_of_changeObject ran with ⟨_, here⟩
  rcases found_of_view same here with ⟨other, otherPresent, shown⟩
  rw [← show first.database = second.database from congrArg View.database same] at shown
  rw [changeObject_of_found here] at ran
  cases ran
  refine ⟨_, changeObject_of_found otherPresent change, ?_⟩
  rw [view_setOperationObject, view_setOperationObject, view_getOperationObject,
    view_getOperationObject, ← same, show first.view.database = first.database from rfl,
    respects shown]

theorem revert_view (ran : entry.revert first = .ok undone) :
    ∃ other, entry.revert second = .ok other ∧ undone.view = other.view := by
  have lists : first.accessList.shown = second.accessList.shown := congrArg View.accessList same
  have withLists : ∀ one two : AccessList, one.shown = two.shown →
      { first with accessList := one }.view = { second with accessList := two }.view := by
    intro one two listed
    exact (congrArg (fun view : View => { view with accessList := one.shown }) same).trans
      (congrArg (fun list => { second.view with accessList := list }) listed)
  cases entry with
  | createObject account =>
    cases ran
    exact ⟨_, rfl, by rw [view_forgetObject, view_forgetObject, same]⟩
  | resetObject account prev =>
    cases ran
    exact ⟨_, rfl, by rw [view_setOperationObject, view_setOperationObject, same]⟩
  | code _ prevCode prevHash =>
    refine changeObject_view same (fun shown => ?_) ran
    rw [shown_setCode, shown_setCode, shown]
  | balance _ prev =>
    exact changeObject_view same (congrArg fun shown : OperationObject.Shown =>
      { shown with data := { shown.data with balance := prev } }) ran
  | nonce _ prev =>
    exact changeObject_view same (congrArg fun shown : OperationObject.Shown =>
      { shown with data := { shown.data with nonce := prev } }) ran
  | storage _ key prevalue =>
    refine changeObject_view same (fun shown => ?_) ran
    rw [shown_setState, shown_setState, shown]
  | suicide account prev prevBalance =>
    rcases here : first.find account with _ | obj
    · have absent : second.find account = none := by
        have objects := congrFun (congrArg View.objects same) account
        simpa [view, here] using objects.symm
      rw [revert_suicide_of_absent here] at ran
      cases ran
      refine ⟨_, revert_suicide_of_absent absent _ _, ?_⟩
      rw [view_getOperationObject, view_getOperationObject, same]
    · rcases found_of_view same here with ⟨other, otherPresent, -⟩
      rw [revert_suicide_of_found here] at ran
      rw [revert_suicide_of_found otherPresent]
      exact changeObject_view same (congrArg fun shown : OperationObject.Shown =>
        { shown with data := { shown.data with balance := prevBalance }, suicided := prev }) ran
  | accessListAddAccount addr =>
    cases ran
    refine ⟨_, rfl, withLists _ _ ?_⟩
    rw [shown_deleteAddress, shown_deleteAddress, lists]
  | accessListAddSlot addr slot =>
    rcases deleted : first.accessList.deleteSlot addr slot with fault | list
    · simp only [JournalEntry.revert, deleted, Except.map, reduceCtorEq] at ran
    simp only [JournalEntry.revert, deleted, Except.map, Except.ok.injEq] at ran
    subst ran
    rcases deleteSlot_shown lists deleted with ⟨other, otherDeleted, listed⟩
    refine ⟨{ second with accessList := other }, ?_, withLists _ _ listed⟩
    simp [JournalEntry.revert, otherDeleted, Except.map]
  | refund prev =>
    cases ran
    exact ⟨_, rfl, congrArg (fun view : View => { view with refund := prev }) same⟩
  | addLog txHash =>
    have logs : first.logs = second.logs := congrArg View.logs same
    have logSize : first.logSize = second.logSize := congrArg View.logSize same
    simp only [JournalEntry.revert, logs, logSize] at ran ⊢
    split at ran
    · cases ran
    · cases ran
      exact ⟨_, rfl, congrArg (fun view : View => { view with
        logs := Function.update second.logs txHash (second.logs txHash).dropLast
        logSize := second.logSize - 1 }) same⟩

end

def undoLog : UndoLog Fault OperationDB JournalEntry View where
  log db := db.journal.entries
  undo := JournalEntry.revert
  view := view
  undo_view := fun same returned => revert_view same returned

theorem undoes_getOperationObject (db : OperationDB) (addr : Address) :
    undoLog.Undoes db (db.getOperationObject addr).2 := by
  apply UndoLog.Undoes.of_view
  · rcases db.getOperationObject_snd addr with same | ⟨_, -, same⟩
    · rw [same]
    · rw [same]
      rfl
  · exact db.view_getOperationObject addr

theorem undoes_setOperationObject (here : db.find addr = some obj)
    (same : changed.shown db.database = obj.shown db.database) :
    undoLog.Undoes db (db.setOperationObject addr changed) :=
  .of_view rfl (view_setOperationObject_of_shown here same)

theorem view_record_set (here : db.find addr = some obj)
    (same : other.shown db.database = obj.shown db.database) :
    ((db.record entry addr changed).setOperationObject addr other).view = db.view := by
  rw [← view_setOperationObject_of_shown here same, view_setOperationObject,
    view_setOperationObject, show (db.record entry addr changed).view =
      (db.setOperationObject addr changed).view from rfl, view_setOperationObject]
  simp

theorem undoes_record (here : db.find addr = some obj)
    (reverts : entry.revert (db.record entry addr changed) =
      (db.record entry addr changed).changeObject addr change)
    (back : (change changed).shown db.database = obj.shown db.database) :
    undoLog.Undoes db (db.record entry addr changed) := by
  have cached : (db.record entry addr changed).getOperationObject addr =
      (some changed, db.record entry addr changed) := by
    simp [getOperationObject, record, setOperationObject]
  have undone : entry.revert (db.record entry addr changed) =
      .ok ((db.record entry addr changed).setOperationObject addr (change changed)) := by
    rw [reverts, changeObject, cached]
  exact .of_entry rfl undone (view_record_set here back)

theorem undoes_createObject (absent : db.find addr = none) :
    undoLog.Undoes db (db.record (.createObject addr) addr .blank) := by
  have unstored : db.objects addr = none ∧ db.trie addr = none := by
    simpa [find] using absent
  refine .of_entry rfl rfl ?_
  change ((db.record (.createObject addr) addr .blank).forgetObject addr).view = db.view
  have hidden : db.view.objects addr = (db.view.trie addr).map fun data =>
      (ofAccount data).shown db.view.database := by
    simp [view, absent, unstored.2]
  rw [view_forgetObject, show (db.record (.createObject addr) addr .blank).view =
    (db.setOperationObject addr .blank).view from rfl, view_setOperationObject]
  simp only [Function.update_idem, ← hidden, Function.update_eq_self]

theorem undoes_looked {found : Option OperationObject}
    (read : db.getOperationObject addr = (found, mid)) :
    undoLog.Undoes db mid ∧ mid.find addr = found := by
  have step := db.undoes_getOperationObject addr
  rcases of_getOperationObject read with ⟨looked, same, -⟩
  rw [read] at step
  exact ⟨step, by rw [same, looked]⟩

theorem undoes_getOrNewOperationObject
    (read : db.getOrNewOperationObject addr = (obj, mid)) :
    undoLog.Undoes db mid := by
  rcases of_getOrNewOperationObject read with looked | ⟨absent, rfl, rfl⟩
  · exact (undoes_looked looked).1
  · exact undoes_createObject absent

/-- A write is undone in two parts: the change of the object, and the object if it is new. -/
theorem undoes_write (read : db.getOrNewOperationObject addr = (obj, mid))
    (changes : mid.find addr = some obj → undoLog.Undoes mid new) : undoLog.Undoes db new := by
  rcases db.getOrNewOperationObject_spec addr read with ⟨-, here, -, -⟩
  exact (undoes_getOrNewOperationObject read).trans (changes here)

theorem undoes_setObjectBalance (here : db.find addr = some obj) (amount : Int) :
    undoLog.Undoes db (db.setObjectBalance addr obj amount) :=
  undoes_record here rfl rfl

theorem undoes_addBalance (db : OperationDB) (addr : Address) (amount : Int) :
    undoLog.Undoes db (db.addBalance addr amount) := by
  rcases read : db.getOrNewOperationObject addr with ⟨_, mid⟩
  apply undoes_write read
  intro here
  simp only [addBalance, read]
  split
  · exact .refl mid
  · exact undoes_setObjectBalance here _

theorem undoes_setCode (reachable : db.Reachable) (addr : Address) (code : Bytes) :
    undoLog.Undoes db (db.setCode addr code) := by
  rcases read : db.getOrNewOperationObject addr with ⟨obj, mid⟩
  rcases Edits.getOrNewOperationObject read with ⟨kept, found⟩
  have loadable := (found (kept.reachable reachable.objects)).consistent.code
  apply undoes_write read
  intro here
  simp only [setCode, read]
  exact undoes_record here rfl
    (obj.shown_setCode_back mid.database loadable (Crypto.keccak256 code) code)

section

variable (db : OperationDB) (addr : Address)

theorem undoes_setState (key value : Hash) : undoLog.Undoes db (db.setState addr key value) := by
  rcases read : db.getOrNewOperationObject addr with ⟨obj, mid⟩
  apply undoes_write read
  intro here
  simp only [setState, read]
  split
  · next fake has =>
    apply undoes_setOperationObject here
    simp only [OperationObject.shown, has]
    rfl
  · next noFake =>
    split
    · exact undoes_setOperationObject here (obj.shown_getState mid.database key)
    · exact undoes_record here rfl (obj.shown_setState_back mid.database key value noFake)

theorem undoes_suicide : undoLog.Undoes db (db.suicide addr).2 := by
  rcases read : db.getOperationObject addr with ⟨_ | obj, mid⟩
  · simp only [suicide, read]
    exact (undoes_looked read).1
  rcases undoes_looked read with ⟨step, here⟩
  simp only [suicide, read]
  have stored : (mid.record (.suicide addr obj.suicided obj.data.balance) addr
      { obj.setBalance 0 with suicided := true }).find addr =
        some { obj.setBalance 0 with suicided := true } := by
    simp [record]
  exact step.trans (undoes_record here (revert_suicide_of_found stored _ _) rfl)

theorem undoes_createAccount : undoLog.Undoes db (db.createAccount addr) := by
  rcases db.createAccount_cases addr with ⟨absent, same⟩ | ⟨_, _, read, same⟩
  · rw [same]
    exact undoes_createObject absent
  · rcases undoes_looked read with ⟨step, here⟩
    rw [same]
    exact step.trans (.of_entry rfl rfl (view_record_set here rfl))

theorem undoes_addAddressToAccessList : undoLog.Undoes db (db.addAddressToAccessList addr) := by
  rcases listed : db.accessList.containsAddress addr
  · have absent : db.accessList.addresses.lookup addr = none := by
      simpa [containsAddress] using listed
    have same : db.addAddressToAccessList addr = { db with accessList := { db.accessList with
            addresses := db.accessList.addresses.insert addr none } }.append
          (.accessListAddAccount addr) := by
      simp [addAddressToAccessList, addAddress, listed]
    rw [same]
    have back : (deleteAddress ⟨db.accessList.addresses.insert addr none,
        db.accessList.slots⟩ addr).shown = db.accessList.shown := by
      rw [shown_deleteAddress, shown_insert, Function.update_idem, ← absent]
      exact Prod.ext (Function.update_eq_self ..) rfl
    exact .of_entry rfl rfl (congrArg (fun list => { db.view with accessList := list }) back)
  · have same : db.addAddressToAccessList addr = db := by
      simp [addAddressToAccessList, addAddress, listed]
    rw [same]
    exact .refl db

end

theorem undoes_addSlotToAccessList (coherent : db.accessList.Coherent) (addr : Address)
    (slot : Hash) : undoLog.Undoes db (db.addSlotToAccessList addr slot) := by
  rcases addSlot_cases coherent addr slot with
    same | ⟨added, undone, same, deleted, shown⟩ | ⟨added, undone, same, deleted, shown⟩
  · simp only [addSlotToAccessList, same]
    exact .refl db
  · have shape : db.addSlotToAccessList addr slot =
        { db with accessList := added }.append (.accessListAddSlot addr slot) := by
      simp [addSlotToAccessList, same]
    have reverted : (JournalEntry.accessListAddSlot addr slot).revert
        ({ db with accessList := added }.append (.accessListAddSlot addr slot)) =
          .ok ({ db with accessList := undone }.append (.accessListAddSlot addr slot)) := by
      simp [JournalEntry.revert, append, deleted, Except.map]
    rw [shape]
    exact .of_entry rfl reverted (congrArg (fun list => { db.view with accessList := list }) shown)
  · have shape : db.addSlotToAccessList addr slot =
        ({ db with accessList := added }.append (.accessListAddAccount addr)).append
          (.accessListAddSlot addr slot) := by
      simp [addSlotToAccessList, same]
    rw [shape]
    refine ⟨[.accessListAddAccount addr, .accessListAddSlot addr slot],
      (({ db with accessList := undone.deleteAddress addr }.append
        (.accessListAddAccount addr)).append (.accessListAddSlot addr slot)), ?_, ?_,
      congrArg (fun list => { db.view with accessList := list }) shown⟩
    · simp [undoLog, append, Journal.append]
    · simp only [undoAll, undoLog, List.reverse_cons, List.reverse_nil, List.nil_append,
        List.cons_append, List.foldlM_cons, JournalEntry.revert, append, deleted, bind]
      rfl

theorem undoes_addLog (db : OperationDB) (log : Log) : undoLog.Undoes db (db.addLog log) := by
  have reverted : (JournalEntry.addLog db.txHash).revert (db.addLog log) =
      .ok (db.append (.addLog db.txHash)) := by
    simp only [JournalEntry.revert, addLog, append]
    split
    · next nothing => simp at nothing
    · simp
  exact .of_entry rfl reverted rfl

section

variable (reachable : db.Reachable)
include reachable

theorem Reachable.coherent : db.accessList.Coherent := by
  induction reachable with
  | opened opens =>
    simp only [newOperationDb, Option.map_eq_some_iff] at opens
    rcases opens with ⟨_, -, rfl⟩
    intro addr _ found
    simp at found
  | read _ _ absent _ caches => rwa [(Edits.readObject _ _ absent caches).accessList]
  | write _ instr ran kept =>
    cases instr with
    | addAddressToAccessList addr =>
      cases ran
      have added := kept.addAddress addr
      unfold addAddressToAccessList
      split
      · next same => rwa [same] at added
      · exact kept
    | addSlotToAccessList addr slot =>
      cases ran
      have added := kept.addSlot addr slot
      unfold addSlotToAccessList
      dsimp only
      split <;> split <;> exact added
    | _ => rwa [(Edits.apply ran (by simp) (by simp)).accessList]
  | setStorage => rwa [(Edits.setStorage ..).accessList]
  | prepare _ _ _ kept => exact kept
  | finalise => rwa [accessList_finalise]
  | intermediateRoot _ _ ran _ => rwa [accessList_intermediateRoot ran]
  | commit _ _ ran _ => rwa [accessList_commit ran]
  | copy _ ran kept =>
    rcases copy_eq_ok ran with ⟨_, _, -, -, rfl⟩
    exact kept
  | shared _ _ kept => exact kept

theorem undoes_apply {instr : StateOp} (ran : instr.apply db = .ok new) :
    undoLog.Undoes db new := by
  cases instr with
  | createAccount addr =>
    cases ran
    exact db.undoes_createAccount addr
  | addBalance addr amount =>
    cases ran
    exact db.undoes_addBalance addr amount
  | subBalance addr amount =>
    cases ran
    rw [subBalance_eq_addBalance]
    exact db.undoes_addBalance addr (-amount)
  | setBalance addr amount =>
    cases ran
    rcases read : db.getOrNewOperationObject addr with ⟨obj, mid⟩
    apply undoes_write read
    intro here
    simp only [setBalance, read]
    exact undoes_setObjectBalance here amount
  | setNonce addr _ =>
    cases ran
    rcases read : db.getOrNewOperationObject addr with ⟨obj, mid⟩
    apply undoes_write read
    intro here
    simp only [setNonce, read]
    exact undoes_record here rfl rfl
  | setCode addr code =>
    cases ran
    exact undoes_setCode reachable addr code
  | setState addr key value =>
    cases ran
    exact db.undoes_setState addr key value
  | suicide addr =>
    cases ran
    exact db.undoes_suicide addr
  | addRefund =>
    cases ran
    exact .of_entry rfl rfl rfl
  | subRefund =>
    simp only [StateOp.apply, subRefund] at ran
    split_ifs at ran
    cases ran
    exact .of_entry rfl rfl rfl
  | addLog log =>
    cases ran
    exact db.undoes_addLog log
  | addAddressToAccessList addr =>
    cases ran
    exact db.undoes_addAddressToAccessList addr
  | addSlotToAccessList addr slot =>
    cases ran
    exact undoes_addSlotToAccessList reachable.coherent addr slot

theorem undoes_applyAll {operations : List StateOp}
    (ran : applyAll operations db = .ok new) : undoLog.Undoes db new := by
  have both : undoLog.Undoes db new ∧ new.Reachable := by
    apply foldlM_invariant (fun state => undoLog.Undoes db state ∧ state.Reachable) _
      ⟨.refl db, reachable⟩ ran
    intro state instr _ kept taken
    exact ⟨kept.1.trans (undoes_apply kept.2 taken), .write kept.2 instr taken⟩
  exact both.1

end

def Debugged (db : OperationDB) (address : Address) : Prop :=
  ∃ object fake, db.find address = some object ∧ object.fakeStorage = some fake

/-- Everything that can be read is as before, the slots of debugging storages
apart. -/
structure Restored (before after : OperationDB) : Prop where
  exist : ∀ address, (after.exist address).1 = (before.exist address).1
  balance : ∀ address, (after.getBalance address).1 = (before.getBalance address).1
  nonce : ∀ address, (after.getNonce address).1 = (before.getNonce address).1
  code : ∀ address, (after.getCode address).1 = (before.getCode address).1
  codeHash : ∀ address, (after.getCodeHash address).1 = (before.getCodeHash address).1
  state : ∀ address, ¬before.Debugged address → ∀ key,
    (after.getState address key).1 = (before.getState address key).1
  suicided : ∀ address, (after.hasSuicided address).1 = (before.hasSuicided address).1
  refund : after.refund = before.refund
  logs : after.logs = before.logs
  addresses : ∀ address, after.addressInAccessList address = before.addressInAccessList address
  slots : ∀ address slot,
    after.slotInAccessList address slot = before.slotInAccessList address slot

theorem readObject_of_view {Value : Type} (same : first.view = second.view) (absent : Value)
    (getter : OperationObject → Database → Value × OperationObject)
    (reads : ∀ obj other, first.find addr = some obj →
      other.shown first.database = obj.shown first.database →
        (getter other first.database).1 = (getter obj first.database).1) :
    (second.readObject addr absent getter).1 = (first.readObject addr absent getter).1 := by
  have disk : first.database = second.database := congrArg View.database same
  have objects := congrFun (congrArg View.objects same) addr
  rw [readObject_fst_find, readObject_fst_find, ← disk]
  simp only [view, ← disk] at objects
  rcases here : first.find addr with _ | obj <;>
    rcases found : second.find addr with _ | other <;>
    simp only [here, found, Option.map_none, Option.map_some, reduceCtorEq, Option.some.injEq]
      at objects
  · rfl
  · exact reads obj other here objects.symm

theorem restored_of_view (same : first.view = second.view) : Restored first second where
  exist addr := readObject_of_view same _ _ fun _ _ _ _ => rfl
  balance addr := readObject_of_view same _ _ fun _ _ _ shown =>
    congrArg (fun shown => shown.data.balance) shown
  nonce addr := readObject_of_view same _ _ fun _ _ _ shown =>
    congrArg (fun shown => shown.data.nonce) shown
  code addr := by
    apply readObject_of_view same
    intro obj other _ shown
    simp only [OperationObject.getCode_fst]
    exact congrArg OperationObject.Shown.code shown
  codeHash addr := readObject_of_view same _ _ fun _ _ _ shown =>
    congrArg (fun shown => shown.data.codeHash) shown
  state addr undebugged key := by
    apply readObject_of_view same
    intro obj other here shown
    have noFake : obj.fakeStorage = none := by
      by_contra fakes
      rcases Option.ne_none_iff_exists'.mp fakes with ⟨fake, has⟩
      exact undebugged ⟨obj, fake, here, has⟩
    have storage := congrArg OperationObject.Shown.storage shown
    simp only [OperationObject.shown, noFake, Option.isSome_none, Bool.false_eq_true, if_false,
      Option.ite_none_left_eq_some, Option.some.injEq] at storage
    simpa only [OperationObject.getState_fst] using congrFun storage.2 key
  suicided addr := readObject_of_view same _ _ fun _ _ _ shown =>
    congrArg OperationObject.Shown.suicided shown
  refund := (congrArg View.refund same).symm
  logs := (congrArg View.logs same).symm
  addresses addr :=
    congrArg (fun view : View => (view.accessList.1 addr).isSome) same.symm
  slots addr slot := by
    have listed : second.accessList.addresses.lookup addr =
        first.accessList.addresses.lookup addr :=
      congrArg (fun view : View => view.accessList.1 addr) same.symm
    have slots : second.accessList.slots = first.accessList.slots :=
      congrArg (fun view : View => view.accessList.2) same.symm
    simp only [slotInAccessList, contains, listed, slots]

/-- Reverting the entries of a sequence of operations, newest first, restores what can be read. -/
theorem revert_restores (reachable : db.Reachable) {operations : List StateOp}
    (returned : applyAll operations db = .ok after) :
    ∃ appended restored, after.journal.entries = db.journal.entries ++ appended ∧
      undoAll JournalEntry.revert appended after = .ok restored ∧ Restored db restored := by
  rcases undoes_applyAll reachable returned with ⟨appended, restored, logged, undone, same⟩
  exact ⟨appended, restored, logged, undone, restored_of_view same.symm⟩

end OperationDB

end

attribute [local instance] sampleCrypto

theorem emptyState_reachable : emptyState.Reachable := by
  have opens : newOperationDb emptyRoot emptyDatabase = some emptyState := rfl
  exact .opened opens

theorem destruction_reverted :
    ∃ after appended restored,
      OperationDB.applyAll
        [.addBalance 0x11 5, .setState 0x11 1 7, .suicide 0x11, .addRefund 3] emptyState =
          .ok after ∧
      after.journal.entries = emptyState.journal.entries ++ appended ∧
      undoAll JournalEntry.revert appended after = .ok restored ∧
      OperationDB.Restored emptyState restored := by
  have ran : ∃ after, OperationDB.applyAll
      [.addBalance 0x11 5, .setState 0x11 1 7, .suicide 0x11, .addRefund 3] emptyState =
        .ok after :=
    ⟨_, rfl⟩
  rcases ran with ⟨after, applied⟩
  rcases OperationDB.revert_restores emptyState_reachable applied with
    ⟨appended, restored, logged, undone, same⟩
  exact ⟨after, appended, restored, applied, logged, undone, same⟩

theorem debugging_slot_not_reverted :
    ∃ db after, db = emptyState.setStorage 0x11 ∅ ∧ db.Reachable ∧
      OperationDB.applyAll [.setState 0x11 1 7] db = .ok after ∧
      after.journal.entries = db.journal.entries ∧
      (after.getState 0x11 1).1 ≠ (db.getState 0x11 1).1 := by
  refine ⟨_, _, rfl, emptyState_reachable.setStorage 0x11 ∅, rfl, rfl, ?_⟩
  decide +kernel

end Octopus
