import Octopus.OperationDB.Commit
import Octopus.OperationDB.Ledger

/-!
# What `IntermediateRoot` writes

The loops of `Finalise` and `IntermediateRoot` touch one account a round, so the trie that
is hashed in the end is known account by account.
-/

namespace Octopus

open Library.Pointwise

variable {db : OperationDB}

structure AccountCell where
  database : Database
  object : Option OperationObject
  record : Option StateAccount
  dirtied : Bool
  pending : Bool

namespace OperationObject

theorem updateTrie_snd (obj : OperationObject) (database : Database) :
    (obj.updateTrie database).2.deleted = obj.deleted ∧
      (obj.updateTrie database).2.data = obj.data := by
  unfold updateTrie
  dsimp only
  split
  · exact ⟨rfl, rfl⟩
  · exact ⟨(obj.finalise.sameMarks_getTrie database).deleted, obj.finalise.data_getTrie database⟩

def recorded (object : OperationObject) (old : Option StateAccount) : Option StateAccount :=
  if object.deleted then none
  else if object.data.balance < 0 then old
  else some object.data

end OperationObject

namespace AccountCell

def Cached (cell : AccountCell) : Prop :=
  cell.object.isSome = true

/-- The cell after its round in the second loop of `IntermediateRoot`. -/
def write (cell : AccountCell) : AccountCell :=
  match cell.object with
  | none => cell
  | some object => { cell with record := object.recorded cell.record }

theorem cached_write {cell : AccountCell} (cached : cell.Cached) : cell.write.Cached := by
  unfold write
  split
  · exact cached
  · exact cached

end AccountCell

namespace OperationDB

def cell (db : OperationDB) (address : Address) : AccountCell where
  database := db.database
  object := db.objects address
  record := db.trie address
  dirtied := decide (address ∈ db.journal.dirties)
  pending := decide (address ∈ db.pending)

theorem cell_record {entry : JournalEntry} {addr : Address}
    (marked : entry.dirtied = some addr) (obj : OperationObject) (other : Address) :
    (db.record entry addr obj).cell other =
      if other = addr then { db.cell addr with object := some obj, dirtied := true }
      else db.cell other := by
  have dirty : other ∈ (db.journal.append entry).dirties ↔
      other = addr ∨ other ∈ db.journal.dirties := by
    rw [Journal.mem_dirties_append, marked, Option.some.injEq, eq_comm]
  by_cases same : other = addr
  · subst same
    simp only [record, setOperationObject, append, cell, dirty, Function.update_self, true_or]
    rfl
  · simp only [record, setOperationObject, append, cell, dirty, Function.update_of_ne same, same,
      false_or]
    rfl

theorem cell_setOperationObject (db : OperationDB) (addr : Address) (obj : OperationObject)
    (other : Address) : (db.setOperationObject addr obj).cell other =
      if other = addr then { db.cell addr with object := some obj }
      else db.cell other := by
  by_cases same : other = addr
  · subst same
    simp only [setOperationObject, cell, Function.update_self]
    rfl
  · simp only [setOperationObject, cell, Function.update_of_ne same, same]
    rfl

theorem writeObject_of_cached (db : OperationDB) (addr : Address)
    (cached : (db.cell addr).Cached) : ∃ next, db.writeObject addr = .ok next := by
  rcases Option.isSome_iff_exists.mp cached with ⟨obj, found⟩
  have found : db.objects addr = some obj := found
  simp only [writeObject, found]
  split
  · exact ⟨_, rfl⟩
  · exact ⟨_, rfl⟩

theorem cell_writeObject :
    Library.Pointwise cell id (attempt writeObject)
      fun _ => AccountCell.write where
  hit db addr := by
    cases cached : db.objects addr with
    | none => simp [attempt, writeObject, cell, AccountCell.write, cached]
    | some obj =>
      by_cases deleted : obj.deleted
      · simp [attempt, writeObject, cell, AccountCell.write, cached, deleted,
          deleteOperationObject, OperationObject.recorded]
      · by_cases overdrawn : obj.data.balance < 0 <;>
          simp [attempt, writeObject, cell, AccountCell.write, cached, deleted,
            updateOperationObject, overdrawn, setError, OperationObject.recorded]
  frame db addr other different := by
    have apart : other ≠ addr := different
    cases cached : db.objects addr with
    | none => simp [attempt, writeObject, cached]
    | some obj =>
      by_cases deleted : obj.deleted
      · simp [attempt, writeObject, cell, cached, deleted, deleteOperationObject, apart]
      · by_cases overdrawn : obj.data.balance < 0 <;>
          simp [attempt, writeObject, cell, cached, deleted,
            updateOperationObject, overdrawn, setError, apart]

variable (db : OperationDB)

theorem cell_clearJournalAndRefund (addr : Address) :
    ∃ dirtied, db.clearJournalAndRefund.cell addr = { db.cell addr with dirtied := dirtied } := by
  unfold clearJournalAndRefund
  split
  · exact ⟨_, rfl⟩
  · exact ⟨_, rfl⟩

end OperationDB

variable [Crypto]

namespace OperationObject

def finalised (object : OperationObject) (deleteEmptyObjects : Bool) : OperationObject :=
  if object.doomed deleteEmptyObjects then { object with deleted := true } else object.finalise

def settled (object : OperationObject) (deleteEmptyObjects : Bool) (database : Database)
    (old : Option StateAccount) : Option StateAccount :=
  if object.deleted || object.doomed deleteEmptyObjects then none
  else if object.data.balance < 0 then old
  else some (object.finalise.updateRoot database).data

variable (obj : OperationObject) (database : Database)

theorem deleted_updateRoot : (obj.updateRoot database).deleted = obj.deleted := by
  have kept := (obj.updateTrie_snd database).1
  unfold updateRoot
  split
  · next same => rw [same] at kept; exact kept
  · next same => rw [same] at kept; exact kept

theorem balance_updateRoot : (obj.updateRoot database).data.balance = obj.data.balance := by
  have kept := (obj.updateTrie_snd database).2
  unfold updateRoot
  split
  · next same => rw [same] at kept; rw [kept]
  · next same => rw [same] at kept; rw [kept]

end OperationObject

namespace AccountCell

def finalise (deleteEmptyObjects : Bool) (cell : AccountCell) : AccountCell :=
  match cell.object with
  | none => cell
  | some object =>
    { cell with object := some (object.finalised deleteEmptyObjects), pending := true }

/-- The cell after its round in the first loop of `IntermediateRoot`. -/
def updateRoot (cell : AccountCell) : AccountCell :=
  match cell.object with
  | none => cell
  | some object =>
    if object.deleted then cell
    else { cell with object := some (object.updateRoot cell.database) }

theorem cached_updateRoot {cell : AccountCell} (cached : cell.Cached) : cell.updateRoot.Cached := by
  unfold updateRoot
  split
  · exact cached
  · split
    · exact cached
    · rfl

def settled (deleteEmptyObjects : Bool) (cell : AccountCell) : Option StateAccount :=
  match cell.object with
  | none => cell.record
  | some object =>
    if cell.dirtied then object.settled deleteEmptyObjects cell.database cell.record
    else cell.record

theorem record_write_updateRoot_finalise {cell : AccountCell} {obj : OperationObject}
    (cached : cell.object = some obj) (delete : Bool) :
    (cell.finalise delete).updateRoot.write.record =
      obj.settled delete cell.database cell.record := by
  simp only [finalise, cached, updateRoot, OperationObject.finalised, OperationObject.settled]
  cases doomed : obj.doomed delete with
  | true => simp [write, OperationObject.recorded]
  | false =>
    cases deleted : obj.deleted with
    | true => simp [write, OperationObject.recorded, OperationObject.finalise, deleted]
    | false =>
      simp [write, OperationObject.recorded, OperationObject.deleted_updateRoot,
        OperationObject.balance_updateRoot, OperationObject.finalise, deleted]

def flush (deleteEmptyObjects : Bool) (cell : AccountCell) : AccountCell :=
  let finalised := if cell.dirtied then cell.finalise deleteEmptyObjects else cell
  if finalised.pending then finalised.updateRoot.write else finalised

end AccountCell

namespace OperationDB

def settled (db : OperationDB) (deleteEmptyObjects : Bool) : AccountTrie :=
  fun address => (db.cell address).settled deleteEmptyObjects

theorem cell_finaliseObject (delete : Bool) :
    Library.Pointwise cell id (finaliseObject delete)
      fun _ => AccountCell.finalise delete where
  hit db addr := by
    cases cached : db.objects addr with
    | none => simp [finaliseObject, cell, AccountCell.finalise, cached]
    | some =>
      simp [finaliseObject, cell, AccountCell.finalise, cached, setOperationObject,
        OperationObject.finalised]
  frame db addr other different := by
    cases cached : db.objects addr with
    | none => simp [finaliseObject, cached]
    | some =>
      have apart : other ≠ addr := different
      simp [finaliseObject, cell, cached, setOperationObject, apart]

theorem updateObjectRoot_of_cached (db : OperationDB) (addr : Address)
    (cached : (db.cell addr).Cached) : ∃ next, db.updateObjectRoot addr = .ok next := by
  rcases Option.isSome_iff_exists.mp cached with ⟨obj, found⟩
  have found : db.objects addr = some obj := found
  simp only [updateObjectRoot, found]
  split
  · exact ⟨_, rfl⟩
  · exact ⟨_, rfl⟩

theorem cell_updateObjectRoot :
    Library.Pointwise cell id (attempt updateObjectRoot)
      fun _ => AccountCell.updateRoot where
  hit db addr := by
    cases cached : db.objects addr with
    | none => simp [attempt, updateObjectRoot, cell, AccountCell.updateRoot, cached]
    | some obj =>
      cases deleted : obj.deleted <;>
        simp [attempt, updateObjectRoot, cell, AccountCell.updateRoot, cached,
          deleted, setOperationObject]
  frame db addr other different := by
    have apart : other ≠ addr := different
    cases cached : db.objects addr with
    | none => simp [attempt, updateObjectRoot, cached]
    | some obj =>
      cases deleted : obj.deleted <;> simp [attempt, updateObjectRoot, cell, cached, deleted,
          setOperationObject, apart]

theorem cell_finalise (db : OperationDB) (delete : Bool) (addr : Address) :
    ∃ dirtied, (db.finalise delete).cell addr =
      { if (db.cell addr).dirtied then (db.cell addr).finalise delete
        else db.cell addr with dirtied := dirtied } := by
  rcases cell_clearJournalAndRefund
    (db.journal.dirties.keys.foldl (finaliseObject delete) db) addr with
    ⟨dirtied, cleared⟩
  refine ⟨dirtied, ?_⟩
  rw [finalise, cleared, (cell_finaliseObject delete).foldl_of_nodup db.journal.dirties.keys_nodup]
  simp [cell, AList.mem_keys]

theorem nodup_pending_finalise (distinct : db.pending.Nodup) (delete : Bool) :
    (db.finalise delete).pending.Nodup :=
  finalise_induction (motive := fun state => state.pending.Nodup) distinct
    (fun _ _ _ kept _ _ _ => kept.insert) fun _ kept => kept

theorem pending_foldl_updateObjectRoot (db : OperationDB) (addresses : List Address) :
    (addresses.foldl (attempt updateObjectRoot) db).pending = db.pending := by
  refine List.foldlRecOn _ _ (motive := fun (state : OperationDB) => state.pending = db.pending)
    rfl ?_
  intro state kept addr _
  rw [← kept]
  cases cached : state.objects addr with
  | none => simp [attempt, updateObjectRoot, cached]
  | some obj =>
    cases deleted : obj.deleted <;>
      simp [attempt, updateObjectRoot, cached, deleted, setOperationObject]

theorem pendingLoops_eq {start : OperationDB} (distinct : start.pending.Nodup)
    (cached : ∀ addr ∈ start.pending, (start.cell addr).Cached) :
    ∃ updated wrote, start.pending.foldlM updateObjectRoot start = .ok updated ∧
      updated.pending.foldlM writeObject updated = .ok wrote ∧
      ∀ addr, wrote.cell addr =
        if addr ∈ start.pending then (start.cell addr).updateRoot.write
        else start.cell addr := by
  have rooted : ∀ addr, ((start.pending.foldl (attempt updateObjectRoot)
      start).cell addr) = if addr ∈ start.pending then (start.cell addr).updateRoot
        else start.cell addr :=
    cell_updateObjectRoot.foldl_of_nodup distinct start
  refine ⟨_, _, cell_updateObjectRoot.foldlM_eq_ok AccountCell.Cached ?_ ?_ cached,
    cell_writeObject.foldlM_eq_ok AccountCell.Cached ?_ ?_ ?_, ?_⟩
  · exact updateObjectRoot_of_cached
  · exact fun _ _ ready => AccountCell.cached_updateRoot ready
  · exact writeObject_of_cached
  · exact fun _ _ ready => AccountCell.cached_write ready
  · intro addr mem
    rw [pending_foldl_updateObjectRoot] at mem
    rw [rooted, if_pos mem]
    exact AccountCell.cached_updateRoot (cached addr mem)
  · intro addr
    have wrote := cell_writeObject.foldl_of_nodup distinct
      (start.pending.foldl (attempt updateObjectRoot) start) addr
    rw [rooted] at wrote
    rw [pending_foldl_updateObjectRoot, wrote]
    split <;> rfl

theorem pending_cell_finalise (db : OperationDB) (delete : Bool) (addr : Address) :
    addr ∈ (db.finalise delete).pending ↔
      addr ∈ db.pending ∨ (db.cell addr).dirtied = true ∧ (db.cell addr).Cached := by
  have listed : addr ∈ (db.finalise delete).pending ↔
      ((db.finalise delete).cell addr).pending = true := by
    simp [cell]
  have old : (db.cell addr).pending = true ↔ addr ∈ db.pending := by simp [cell]
  rcases db.cell_finalise delete addr with ⟨dirtied, same⟩
  rw [listed, same, ← old]
  cases dirty : (db.cell addr).dirtied with
  | false => simp
  | true => cases obj : (db.cell addr).object <;> simp [AccountCell.finalise, AccountCell.Cached, *]

structure LoopFrame (before after : OperationDB) : Prop where
  database : after.database = before.database
  dirty : after.dirty = before.dirty
  journal : after.journal = before.journal

theorem intermediateRoot_spec (distinct : db.pending.Nodup)
    (cached : ∀ addr ∈ db.pending, (db.objects addr).isSome) (delete : Bool) :
    ∃ new, db.intermediateRoot delete = .ok (Crypto.accountRoot new.trie, new) ∧
      new.pending = [] ∧ LoopFrame (db.finalise delete) new ∧
      ∀ addr, new.objects addr = ((db.cell addr).flush delete).object ∧
        new.trie addr = ((db.cell addr).flush delete).record := by
  have ready : ∀ addr ∈ (db.finalise delete).pending, ((db.finalise delete).cell addr).Cached := by
    intro addr mem
    rcases db.cell_finalise delete addr with ⟨dirtied, same⟩
    have here : (db.cell addr).object.isSome = true := by
      rcases (db.pending_cell_finalise delete addr).mp mem with pending | marked
      · exact cached addr pending
      · exact marked.2
    rcases Option.isSome_iff_exists.mp here with ⟨obj, found⟩
    rw [same, AccountCell.Cached]
    split <;> simp [AccountCell.finalise, found]
  rcases pendingLoops_eq (nodup_pending_finalise distinct delete) ready with
    ⟨updated, wrote, first, second, cells⟩
  have ran : db.intermediateRoot delete =
      .ok (Crypto.accountRoot wrote.trie, { wrote with pending := [] }) := by
    simp only [intermediateRoot, first, second, bind, Except.bind]
    rfl
  refine ⟨{ wrote with pending := [] }, ran, rfl, ?_, ?_⟩
  · refine intermediateRoot_induction (motive := LoopFrame (db.finalise delete)) ran
      ⟨rfl, rfl, rfl⟩ (fun _ _ _ kept _ => { kept with }) ?_ fun _ kept => { kept with }
    intro state addr obj kept _
    refine ⟨{ kept with }, ?_⟩
    unfold updateOperationObject
    split <;> exact { kept with }
  · intro addr
    have same := cells addr
    rcases db.cell_finalise delete addr with ⟨dirtied, finalised⟩
    have listed : addr ∈ (db.finalise delete).pending ↔
        ((db.finalise delete).cell addr).pending = true := by
      simp [cell]
    simp only [listed, finalised] at same
    change (wrote.cell addr).object = _ ∧ (wrote.cell addr).record = _
    rw [same, AccountCell.flush]
    generalize (if (db.cell addr).dirtied = true then
      (db.cell addr).finalise delete else db.cell addr) = mid
    split
    · rcases mid with ⟨database, _ | obj, record, marked, pending⟩
      · exact ⟨rfl, rfl⟩
      · cases deleted : obj.deleted <;> simp [AccountCell.updateRoot, AccountCell.write, deleted]
    · exact ⟨rfl, rfl⟩

theorem intermediateRoot_eq (fresh : db.pending = []) (delete : Bool) :
    ∃ new, db.intermediateRoot delete = .ok (Crypto.accountRoot (db.settled delete), new) := by
  have distinct : db.pending.Nodup := by simp [fresh]
  rcases intermediateRoot_spec distinct (by simp [fresh]) delete with ⟨new, ran, -, -, cells⟩
  refine ⟨new, ?_⟩
  have settled : new.trie = db.settled delete := by
    funext addr
    have unlisted : (db.cell addr).pending = false := by simp [cell, fresh]
    rw [(cells addr).2, OperationDB.settled, AccountCell.settled, AccountCell.flush]
    cases dirty : (db.cell addr).dirtied with
    | false => cases (db.cell addr).object <;> simp [unlisted]
    | true =>
      cases found : (db.cell addr).object with
      | none => simp [AccountCell.finalise, found, unlisted]
      | some =>
        have wrote := AccountCell.record_write_updateRoot_finalise found delete
        simpa [AccountCell.finalise, found] using wrote
  rw [ran, settled]

end OperationDB

end Octopus
