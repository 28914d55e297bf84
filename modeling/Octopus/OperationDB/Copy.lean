import Octopus.OperationDB.Observation

/-!
# Copying a state

The copy forgets the refund, the debugging storage, the objects that are cached without
being listed, and which accounts the journal would have deleted.  Where none of this
shows, it cannot be told from its original.  The two share nothing but the database, where
everything is kept under its hash, so neither disturbs the other.
-/

namespace Octopus

open Library OperationObject Crypto AccountCell Function Option

variable {obj : OperationObject} {new : OperationDB} {disk : Database} {addr : Address}
  {delete : Bool}

theorem OperationObject.shownTrie_deepCopy (obj : OperationObject) (disk : Database) :
    obj.deepCopy.shownTrie disk = obj.shownTrie disk := by
  have root := openStorageTrie_ofAccount obj.data disk
  exact congrArg (fun trie => obj.trie.getD (trie.getD fun _ => 0)) root

section

variable [Crypto]

namespace OperationObject

variable {obj : OperationObject}

def undebugged (object : OperationObject) : OperationObject :=
  { object with fakeStorage := none }

theorem face_deepCopy (obj : OperationObject) (disk : Database) :
    obj.deepCopy.face disk = obj.undebugged.face disk := by
  have committed : obj.deepCopy.shownCommitted disk = obj.undebugged.shownCommitted disk := by
    unfold shownCommitted
    rw [shownTrie_deepCopy]
    rfl
  refine Face.ext rfl rfl rfl ?_ committed rfl
  funext key
  change (obj.dirtyStorage.lookup key).getD (obj.deepCopy.shownCommitted disk key) = _
  rw [committed]
  rfl

theorem data_updateRoot (obj : OperationObject) (disk : Database) :
    (obj.updateRoot disk).data =
      if obj.finalise.pendingStorage.entries = [] then
        obj.trie.elim obj.data fun trie =>
          { obj.data with root := storageRoot trie }
      else
        { obj.data with
          root := storageRoot (obj.finalise.pendingStorage.entries.foldl
            (fun state entry => updateSlot state entry.1 entry.2)
            (obj.originStorage, obj.shownTrie disk)).2 } := by
  by_cases nothing : obj.finalise.pendingStorage.entries = []
  · have updated : obj.updateTrie disk = (obj.trie, obj.finalise) := if_pos nothing
    rw [if_pos nothing, updateRoot, updated]
    rcases obj.trie with _ | trie <;> rfl
  have data := obj.finalise.data_getTrie disk
  have trie := obj.finalise.getTrie_fst disk
  have kept : (obj.finalise.getTrie disk).2.originStorage = obj.originStorage ∧
      (obj.finalise.getTrie disk).2.pendingStorage = obj.finalise.pendingStorage := by
    rw [getTrie_snd]
    exact ⟨rfl, rfl⟩
  simp only [updateRoot, updateTrie, if_neg nothing]
  rw [kept.1, kept.2, trie, data]
  rfl

theorem data_updateRoot_deepCopy (rooted : obj.trie = none → obj.data.root ≠ 0)
    (disk : Database) : (obj.deepCopy.updateRoot disk).data = (obj.updateRoot disk).data := by
  rw [data_updateRoot, data_updateRoot, shownTrie_deepCopy]
  rcases unopened : obj.trie with _ | trie
  · have same : obj.deepCopy.data = obj.data := by
      have root : (ofAccount obj.data).data.root = obj.data.root := if_neg (rooted unopened)
      exact congrArg (fun root => { obj.data with root := root }) root
    have closed : obj.deepCopy.trie = none := unopened
    rw [closed, same]
    rfl
  · have opened : obj.deepCopy.trie = some trie := unopened
    rw [opened]
    rfl

def flushedRecord (object : OperationObject) (database : Database) (old : Option StateAccount) :
    Option StateAccount :=
  if object.deleted then none
  else if object.data.balance < 0 then old
  else some (object.updateRoot database).data

theorem flushedRecord_deepCopy (rooted : obj.trie = none → obj.data.root ≠ 0)
    (disk : Database) (old : Option StateAccount) :
    obj.deepCopy.flushedRecord disk old = obj.flushedRecord disk old := by
  unfold flushedRecord
  rw [data_updateRoot_deepCopy rooted]
  rfl

theorem settled_eq_flushedRecord (obj : OperationObject) (delete : Bool)
    (disk : Database) (old : Option StateAccount) :
    obj.settled delete disk old =
      if obj.doomed delete then none else obj.flushedRecord disk old := by
  have again : obj.finalise.updateRoot disk = obj.updateRoot disk := rfl
  unfold settled flushedRecord
  rw [again]
  cases obj.doomed delete <;> simp

theorem flushedRecord_eq_none_iff (obj : OperationObject) (disk : Database)
    (old : Option StateAccount) :
    obj.flushedRecord disk old = none ↔ obj.deleted = true ∨ obj.data.balance < 0 ∧ old = none := by
  unfold flushedRecord
  cases obj.deleted with
  | true => simp
  | false => by_cases overdrawn : obj.data.balance < 0 <;> simp [overdrawn]

theorem doomed_true_of_doomed (doomed : obj.doomed delete = true) : obj.doomed true = true := by
  unfold OperationObject.doomed at doomed ⊢
  cases delete <;> simp_all

end OperationObject

theorem AccountCell.record_flush (cell : AccountCell) (delete : Bool) :
    (cell.flush delete).record = cell.object.elim cell.record fun obj =>
      if cell.dirtied && obj.doomed delete then none
      else if cell.dirtied || cell.pending then obj.flushedRecord cell.database cell.record
      else cell.record := by
  rcases cell with ⟨disk, _ | obj, record, dirtied, pending⟩
  · cases dirtied <;> cases pending <;> rfl
  cases dirtied with
  | true =>
    have settled := @record_write_updateRoot_finalise _
      ⟨disk, some obj, record, true, pending⟩ obj rfl delete
    rw [settled_eq_flushedRecord] at settled
    exact settled
  | false =>
    cases pending with
    | true =>
      cases deleted : obj.deleted <;> simp [flush, updateRoot, write, recorded, deleted,
          flushedRecord, deleted_updateRoot, balance_updateRoot]
    | false => rfl

namespace OperationDB

variable {db copied : OperationDB}

structure CopyFaithful (db : OperationDB) : Prop where
  refund : db.refund = 0
  undebugged : ∀ address object, db.objects address = some object → db.Copied address →
    object.undebugged.face db.database = object.face db.database
  recorded : ∀ address object, db.objects address = some object → ¬ db.Copied address →
    ∃ data, db.trie address = some data ∧
      (OperationObject.ofAccount data).face db.database = object.face db.database
  undoomed : ∀ address object, db.objects address = some object →
    address ∈ db.journal.dirties → object.doomed true = true →
      object.deleted = true ∨ object.data.balance < 0 ∧ db.trie address = none

def RootsTell (first second : OperationDB) : Prop :=
  ∀ deleteEmptyObjects root firstAfter secondAfter,
    first.intermediateRoot deleteEmptyObjects = .ok (root, firstAfter) →
    second.intermediateRoot deleteEmptyObjects = .ok (root, secondAfter) →
      firstAfter.trie = secondAfter.trie

section

variable (listed : db.Listed)
include listed

theorem faces_copy_iff (ran : db.copy = .ok copied) :
    (∀ addr, db.face addr = copied.face addr) ↔
      (∀ addr obj, db.objects addr = some obj → db.Copied addr →
        obj.undebugged.face db.database = obj.face db.database) ∧
      ∀ addr obj, db.objects addr = some obj → ¬ db.Copied addr → ∃ data, db.trie addr = some data ∧
          (ofAccount data).face db.database = obj.face db.database := by
  rcases copy_spec listed with ⟨_, same, disk, trie, -, -, -, -, -, -, objects⟩
  cases ran.symm.trans same
  have shown : ∀ addr obj, db.objects addr = some obj → copied.face addr =
      if db.Copied addr then some (obj.undebugged.face db.database)
      else (db.trie addr).map fun data =>
        (ofAccount data).face db.database := by
    intro addr obj cached
    unfold face find
    rw [objects, trie, disk, cached]
    by_cases taken : db.Copied addr
    · simp [taken, face_deepCopy]
    · rcases db.trie addr with _ | data <;> simp [taken]
  have old : ∀ addr obj, db.objects addr = some obj →
      db.face addr = some (obj.face db.database) := by
    intro addr obj cached
    simp [face, find, cached]
  refine ⟨?_, ?_⟩
  · intro agree
    refine ⟨?_, ?_⟩
    · intro addr obj cached taken
      have faces := agree addr
      rw [shown addr obj cached, old addr obj cached] at faces
      simp only [if_pos taken, some.injEq] at faces
      exact faces.symm
    · intro addr obj cached untaken
      have faces := agree addr
      rw [shown addr obj cached, old addr obj cached] at faces
      simp only [if_neg untaken] at faces
      exact map_eq_some_iff.mp faces.symm
  · rintro ⟨undebugged, recorded⟩ addr
    rcases cached : db.objects addr with _ | obj
    · unfold face find
      rw [objects, trie, disk, cached]
      simp
    rw [shown addr obj cached, old addr obj cached]
    by_cases taken : db.Copied addr
    · simp [if_pos taken, undebugged addr obj cached taken]
    · rcases recorded addr obj cached taken with ⟨data, wrote, faces⟩
      simp [if_neg taken, wrote, faces]

variable (reachable : db.ObjectsReachable) (ran : db.copy = .ok copied)
include reachable ran

theorem record_flush_copy_iff (delete : Bool) (addr : Address) :
    ((db.cell addr).flush delete).record = ((copied.cell addr).flush delete).record ↔
      ∀ obj, db.objects addr = some obj → addr ∈ db.journal.dirties → obj.doomed delete = true →
          obj.deleted = true ∨ obj.data.balance < 0 ∧ db.trie addr = none := by
  rcases copy_spec listed with ⟨other, same, disk, trie, pending, -, -, -, -, journal, objects⟩
  cases ran.symm.trans same
  have unmarked : addr ∉ copied.journal.dirties := by
    rw [journal]
    exact AList.notMem_empty addr
  rw [record_flush, record_flush]
  rcases cached : db.objects addr with _ | obj
  · simp [cell, cached, objects, trie]
  have flushed : obj.deepCopy.flushedRecord db.database (db.trie addr) =
      obj.flushedRecord db.database (db.trie addr) :=
    flushedRecord_deepCopy (reachable addr obj cached).consistent.root ..
  by_cases marked : addr ∈ db.journal.dirties
  · have journaled : addr ∈ db.journaled := mem_journaled.mpr ⟨marked, by simp [cached]⟩
    have taken : db.Copied addr := .inl journaled
    simp only [cell, cached, objects, if_pos taken, trie, pending, disk, marked, unmarked,
      map_some, elim_some, decide_true, decide_false, Bool.true_and, Bool.false_and, Bool.false_or,
      if_true, Bool.false_eq_true, if_false, List.mem_union_iff, journaled, true_or, flushed]
    cases doomed : obj.doomed delete with
    | true =>
      rw [if_pos rfl, eq_comm, flushedRecord_eq_none_iff]
      simp [doomed]
    | false => simp [doomed]
  · have unjournaled : addr ∉ db.journaled := fun mem => marked (mem_journaled.mp mem).1
    by_cases listedPending : addr ∈ db.pending
    · have taken : db.Copied addr := .inr (.inl listedPending)
      simp [cell, cached, objects, taken, trie, pending, disk, marked, unmarked,
        listedPending, flushed]
    · by_cases taken : db.Copied addr <;>
        simp [cell, cached, objects, taken, trie, pending, marked, unmarked, unjournaled,
          listedPending]

theorem tries_copy_eq (undoomed : ∀ addr obj, db.objects addr = some obj →
      addr ∈ db.journal.dirties → obj.doomed true = true →
        obj.deleted = true ∨ obj.data.balance < 0 ∧ db.trie addr = none)
    {root copyRoot : Hash} {first second : OperationDB}
    (rooted : db.intermediateRoot delete = .ok (root, first))
    (copyRooted : copied.intermediateRoot delete = .ok (copyRoot, second)) :
    first.trie = second.trie := by
  rcases listed.intermediateRoot_spec delete with ⟨_, same, -, -, cells⟩
  cases rooted.symm.trans same
  rcases (listed.copy ran).intermediateRoot_spec delete with
    ⟨copyFlushed, copySame, -, -, copyCells⟩
  cases copyRooted.symm.trans copySame
  funext addr
  rw [(cells addr).2, (copyCells addr).2, record_flush_copy_iff listed reachable ran]
  intro obj cached marked doomed
  exact undoomed addr obj cached marked (doomed_true_of_doomed doomed)

theorem roots_copy_iff (tell : RootsTell db copied) :
    (∀ delete, (db.intermediateRoot delete).map Prod.fst =
        (copied.intermediateRoot delete).map Prod.fst) ↔
      ∀ addr obj, db.objects addr = some obj → addr ∈ db.journal.dirties → obj.doomed true = true →
          obj.deleted = true ∨ obj.data.balance < 0 ∧ db.trie addr = none := by
  have copies := listed.copy ran
  refine ⟨?_, ?_⟩
  · intro agree addr obj cached marked doomed
    rcases listed.intermediateRoot_spec true with ⟨first, rooted, -, -, cells⟩
    rcases copies.intermediateRoot_spec true with ⟨second, copyRooted, -, -, copyCells⟩
    have roots := agree true
    rw [rooted, copyRooted] at roots
    have roots : Crypto.accountRoot first.trie = Crypto.accountRoot second.trie :=
      Except.ok.inj roots
    have tries := tell true _ first second rooted (roots ▸ copyRooted)
    have records := congrFun tries addr
    rw [(cells addr).2, (copyCells addr).2, record_flush_copy_iff listed reachable ran] at records
    exact records obj cached marked doomed
  · intro undoomed delete
    rcases listed.intermediateRoot_spec delete with ⟨first, rooted, -⟩
    rcases copies.intermediateRoot_spec delete with ⟨second, copyRooted, -⟩
    have tries := tries_copy_eq listed reachable ran undoomed rooted copyRooted
    rw [rooted, copyRooted, tries]
    rfl

end

theorem observes_copy_iff (reachable : db.Reachable) (ran : db.copy = .ok copied)
    (tell : RootsTell db copied) : Observes db copied ↔ db.CopyFaithful := by
  have listed := reachable.listed
  have faces := faces_copy_iff listed ran
  have roots := roots_copy_iff listed reachable.objects ran tell
  rcases copy_spec listed with ⟨_, same, -, -, -, -, refund, logs, accessList, -, -⟩
  cases ran.symm.trans same
  refine ⟨?_, ?_⟩
  · intro observes
    have shown := faces.mp (faces_eq_iff.mpr ⟨observes.exist, observes.balance, observes.nonce,
      observes.code, observes.state, observes.committed, observes.suicided⟩)
    exact ⟨observes.refund.trans refund, shown.1, shown.2, roots.mp observes.root⟩
  · intro faithful
    rcases faces_eq_iff.mp (faces.mpr ⟨faithful.undebugged, faithful.recorded⟩) with
      ⟨exist, balance, nonce, code, state, committed, suicided⟩
    exact
      { exist, balance, nonce, code, state, committed, suicided
        refund := faithful.refund.trans refund.symm
        logs := fun txHash => by rw [logs]
        addresses := fun addr => by
          unfold addressInAccessList
          rw [accessList]
        slots := fun addr slot => by
          unfold slotInAccessList
          rw [accessList]
        root := roots.mpr faithful.undoomed }

inductive Later (db : OperationDB) : OperationDB → Prop where
  | read {Value : Type} (address : Address) (absent : Value)
      (getter : OperationObject → Database → Value × OperationObject)
      (caches : ∀ object database, (getter object database).2 = object ∨
        (getter object database).2 = (object.getCode database).2 ∨
        (getter object database).2 = (object.codeSize database).2 ∨
        (getter object database).2 = (object.getTrie database).2) :
      Later db (db.readObject address absent getter).2
  | write {after : OperationDB} (operation : StateOp) (returned : operation.apply db = .ok after) :
      Later db after
  | setStorage (address : Address) (storage : Storage) : Later db (db.setStorage address storage)
  | prepare (txHash : Hash) (txIndex : Nat) : Later db (db.prepare txHash txIndex)
  | finalise (deleteEmptyObjects : Bool) : Later db (db.finalise deleteEmptyObjects)
  | intermediateRoot {after : OperationDB} {root : Hash} (deleteEmptyObjects : Bool)
      (returned : db.intermediateRoot deleteEmptyObjects = .ok (root, after)) : Later db after
  | commit {after : OperationDB} {result : Except CommitError Hash} (deleteEmptyObjects : Bool)
      (returned : db.commit deleteEmptyObjects = .ok (result, after)) : Later db after

theorem Later.reachable (later : Later db new) (reachable : db.Reachable) : new.Reachable := by
  cases later with
  | read addr absent getter caches => exact reachable.read addr absent getter caches
  | write operation ran => exact reachable.write operation ran
  | setStorage addr storage => exact reachable.setStorage addr storage
  | prepare txHash txIndex => exact reachable.prepare txHash txIndex
  | finalise delete => exact reachable.finalise delete
  | intermediateRoot delete ran => exact reachable.intermediateRoot delete ran
  | commit delete ran => exact reachable.commit delete ran

theorem hashed_commitObjects {addresses : List Address} {codes wrote : List (Hash × Bytes)}
    (reachable : db.ObjectsReachable) (hashed : ∀ pair ∈ codes, pair.1 = keccak256 pair.2)
    (ran : commitObjects addresses codes db = .ok (.ok wrote, new)) :
    ∀ pair ∈ wrote, pair.1 = keccak256 pair.2 := by
  induction addresses generalizing codes db with
  | nil =>
    cases ran
    exact hashed
  | cons addr _ ih =>
    unfold OperationDB.commitObjects at ran
    split at ran
    · cases ran
    · next obj cached =>
      have made := reachable addr obj cached
      split_ifs at ran with deleted
      · exact ih reachable hashed ran
      · split at ran
        next collected cleaned batched =>
        have kept : cleaned.Reachable ∧ ∀ pair ∈ collected, pair.1 = keccak256 pair.2 := by
          split at batched
          · next code coded unstored =>
            cases batched
            refine ⟨made.keepCode, ?_⟩
            intro pair mem
            rcases List.mem_append.mp mem with earlier | last
            · exact hashed pair earlier
            · have fits := made.consistent.hashed unstored
              rw [coded] at fits
              rw [List.mem_singleton.mp last]
              exact fits
          · cases batched
            exact ⟨made, hashed⟩
        split at ran
        · cases ran
        · next committed =>
          have stored := (Edits.commitTrie addr fun _ => kept.1).reachable reachable
          rw [committed] at stored
          exact ih stored kept.2 ran

theorem Later.extends (later : Later db new) (reachable : db.Reachable) :
    db.database.Extends new.database := by
  cases later with
  | read _ absent _ caches => exact (Edits.readObject db _ absent caches).database
  | write _ ran => exact (Grows.apply ran).database
  | setStorage => exact (Edits.setStorage ..).database
  | prepare => exact .refl _
  | finalise =>
    rw [database_finalise]
    exact .refl _
  | intermediateRoot _ ran => exact reachable.listed.extends_intermediateRoot ran
  | commit _ ran =>
    rcases commit_eq_ok ran with ⟨_, -, -, rfl⟩ | ⟨-, root, _, rooted, outcome⟩
    · exact .refl _
    have flushed := reachable.listed.extends_intermediateRoot rooted
    rcases outcome with ⟨_, looped, -⟩ | ⟨_, last, looped, -, rfl⟩
    · exact flushed.trans (Edits.commitObjects looped).database
    have grown := Edits.commitObjects looped
    have hashed := hashed_commitObjects (reachable.objects.intermediateRoot rooted)
      (fun _ mem => absurd mem List.not_mem_nil) looped
    have named : root = Crypto.accountRoot last.trie := by
      rw [grown.trie]
      rcases intermediateRoot_eq_ok rooted with ⟨_, _, -, -, named, rfl⟩
      exact named
    rw [named]
    exact ((flushed.trans grown.database).trans (.insertCodes hashed _)).trans
      (.insertAccountTrie ..)

structure Complete (db : OperationDB) : Prop where
  codes : ∀ address object, db.find address = some object → object.code = none →
    object.data.codeHash = emptyCodeHash ∨
      ∃ code, db.database.contractCode object.data.codeHash = some code
  tries : ∀ address object, db.find address = some object → object.trie = none →
    ∃ trie, db.database.openStorageTrie object.data.root = some trie

section

variable (complete : db.Complete)
include complete

theorem Complete.shownTrie_eq (kept : db.database.Within disk)
    (found : db.find addr = some obj) : obj.shownTrie disk = obj.shownTrie db.database := by
  unfold shownTrie
  rcases unopened : obj.trie with _ | trie
  · rcases complete.tries addr obj found unopened with ⟨trie, opens⟩
    rw [opens, Database.openStorageTrie_of_kept kept.storageTries opens]
  · rfl

theorem Complete.shownCode_eq (kept : db.database.Within disk)
    (found : db.find addr = some obj) : obj.shownCode disk = obj.shownCode db.database := by
  unfold shownCode
  rcases missing : obj.code with _ | code
  · rcases complete.codes addr obj found missing with empty | ⟨code, stored⟩
    · rw [if_pos empty, if_pos empty]
    · rcases Database.contractCode_eq_some stored with ⟨entry, nonempty⟩
      rw [stored, Database.contractCode_of_stored (kept.codes _ _ entry) nonempty]
  · rfl

theorem Complete.observes (listed : db.Listed) (kept : db.database.Within disk) :
    Observes db { db with database := disk } := by
  have faces : ∀ addr, db.face addr = face { db with database := disk } addr := by
    intro addr
    have same : find { db with database := disk } addr = db.find addr := rfl
    unfold face
    rw [same]
    rcases found : db.find addr with _ | obj
    · rfl
    have trie := complete.shownTrie_eq kept found
    have code := complete.shownCode_eq kept found
    have committed : obj.shownCommitted disk = obj.shownCommitted db.database := by
      unfold shownCommitted
      rw [trie]
    have state : obj.shownState disk = obj.shownState db.database := by
      unfold shownState
      rw [committed]
    simp [OperationObject.face, code, committed, state]
  have roots : ∀ delete, (db.intermediateRoot delete).map Prod.fst =
      (intermediateRoot delete { db with database := disk }).map Prod.fst := by
    intro delete
    have listedAfter : Listed { db with database := disk } := ⟨listed.distinct, listed.cached⟩
    rcases listed.intermediateRoot_spec delete with ⟨first, rooted, -, -, cells⟩
    rcases listedAfter.intermediateRoot_spec delete with ⟨second, laterRooted, -, -, laterCells⟩
    have tries : first.trie = second.trie := by
      funext addr
      rw [(cells addr).2, (laterCells addr).2, record_flush, record_flush]
      rcases cached : db.objects addr with _ | obj
      · simp [cell, cached]
      have found : db.find addr = some obj := by simp [find, cached]
      have flushed : obj.flushedRecord disk (db.trie addr) =
          obj.flushedRecord db.database (db.trie addr) := by
        unfold flushedRecord
        rw [data_updateRoot, data_updateRoot, complete.shownTrie_eq kept found]
      simp [cell, cached, flushed]
    rw [rooted, laterRooted, tries]
    rfl
  rcases faces_eq_iff.mp faces with ⟨exist, balance, nonce, code, state, committed, suicided⟩
  exact
    { exist, balance, nonce, code, state, committed, suicided
      refund := rfl
      logs := fun _ => rfl
      addresses := fun _ => rfl
      slots := fun _ _ => rfl
      root := roots }

end

/-- A copy and its original, after operations on both; what one stores is there for the other. -/
inductive Apart (db copied : OperationDB) : OperationDB → OperationDB → Prop where
  | start : Apart db copied db copied
  | original {first second after : OperationDB} (earlier : Apart db copied first second)
      (later : Later first after) (free : first.database.CollisionFree after.database) :
      Apart db copied after { second with database := after.database }
  | copy {first second after : OperationDB} (earlier : Apart db copied first second)
      (later : Later second after) (free : second.database.CollisionFree after.database) :
      Apart db copied { first with database := after.database } after

theorem Apart.reachable {first second : OperationDB} (apart : Apart db copied first second)
    (reachable : db.Reachable) (ran : db.copy = .ok copied) (hashed : db.database.Hashed) :
    first.Reachable ∧ second.Reachable ∧ second.database = first.database ∧
      first.database.Hashed := by
  induction apart with
  | start =>
    rcases copy_eq_ok ran with ⟨_, _, -, -, rfl⟩
    exact ⟨reachable, reachable.copy ran, rfl, hashed⟩
  | original _ later free kept =>
    rcases kept with ⟨firstReachable, secondReachable, shared, stored⟩
    have grown := later.extends firstReachable
    have within := grown.within stored free
    exact ⟨later.reachable firstReachable, secondReachable.shared (shared ▸ within), rfl,
      grown.hashed stored⟩
  | copy _ later free kept =>
    rcases kept with ⟨firstReachable, secondReachable, shared, stored⟩
    have grown := later.extends secondReachable
    rw [shared] at grown free
    have within := grown.within stored free
    exact ⟨firstReachable.shared within, later.reachable secondReachable, rfl, grown.hashed stored⟩

/-- No operation on a copy or on its original changes what the other shows, if
the other is complete. -/
def Independent (db copied : OperationDB) : Prop :=
  ∀ first second, Apart db copied first second →
    (∀ after, Later first after → first.database.CollisionFree after.database →
      second.Complete → Observes second { second with database := after.database }) ∧
    ∀ after, Later second after → second.database.CollisionFree after.database →
      first.Complete → Observes first { first with database := after.database }

theorem independent_copy (reachable : db.Reachable) (ran : db.copy = .ok copied)
    (hashed : db.database.Hashed) : Independent db copied := by
  intro _ _ apart
  rcases apart.reachable reachable ran hashed with ⟨firstReachable, secondReachable, shared, stored⟩
  refine ⟨?_, ?_⟩
  · intro new later free complete
    have within := (later.extends firstReachable).within stored free
    rw [← shared] at within
    exact complete.observes secondReachable.listed within
  · intro new later free complete
    have grown := later.extends secondReachable
    rw [shared] at grown free
    exact complete.observes firstReachable.listed (grown.within stored free)

/-- A copy can be taken of every reachable state and is independent of it; it shows the same
exactly if what `Copy` forgets does not show. -/
theorem copy_observes_iff (reachable : db.Reachable) (hashed : db.database.Hashed)
    (tell : ∀ copied, db.copy = .ok copied → RootsTell db copied) :
    ∃ copied, db.copy = .ok copied ∧ (Observes db copied ↔ db.CopyFaithful) ∧
      Independent db copied := by
  rcases copy_spec reachable.listed with ⟨copied, ran, -⟩
  exact ⟨copied, ran, observes_copy_iff reachable ran (tell copied ran),
    independent_copy reachable ran hashed⟩

end OperationDB

end

@[reducible]
def copyCrypto : Crypto :=
  { sampleCrypto with
    accountRoot := fun trie => if (trie 0x11).isSome then
      0x85dab23ea41fb8e0281501ef9a4452b791bd18f7d9fcae9fb0097a776355a491 else emptyRoot }

attribute [local instance] copyCrypto

theorem copy_forgets_refund :
    ∃ copied, (emptyState.addRefund 5).Reachable ∧ (emptyState.addRefund 5).copy = .ok copied ∧
      (emptyState.addRefund 5).refund = 5 ∧ copied.refund = 0 ∧
      ¬ OperationDB.Observes (emptyState.addRefund 5) copied := by
  have opens : newOperationDb emptyRoot emptyDatabase = some emptyState := rfl
  have taken : ∃ copied, (emptyState.addRefund 5).copy = .ok copied ∧ copied.refund = 0 :=
    ⟨_, rfl, rfl⟩
  rcases taken with ⟨copied, ran, forgotten⟩
  refine ⟨copied, (OperationDB.Reachable.opened opens).write (.addRefund 5) rfl, ran, rfl,
    forgotten, ?_⟩
  intro observes
  have refunds : 5 = copied.refund := observes.refund
  rw [forgotten] at refunds
  cases refunds

def paidState : OperationDB :=
  emptyState.addBalance 0x11 5

theorem objects_paidState : paidState.objects =
    update (fun _ => none) 0x11 (some (.setBalance .blank 200000005)) := by
  have shape : ∃ created, paidState.objects = update (update (fun _ => none) 0x11
      created) 0x11 (some (.setBalance .blank 200000005)) :=
    ⟨_, rfl⟩
  rcases shape with ⟨created, same⟩
  rw [same, update_idem]

theorem eq_of_objects_paidState (cached : paidState.objects addr = some obj) :
    addr = 0x11 ∧ obj = .setBalance .blank 200000005 := by
  rw [objects_paidState] at cached
  rcases update_eq_some cached with ⟨rfl, rfl⟩ | ⟨-, cached⟩
  · exact ⟨rfl, rfl⟩
  · cases cached

theorem complete_paidState : paidState.Complete := by
  have found : ∀ addr obj, paidState.find addr = some obj → obj = .setBalance .blank 200000005 := by
    intro addr obj found
    have looked : (paidState.objects addr).or none = some obj := found
    rw [or_none] at looked
    exact (eq_of_objects_paidState looked).2
  refine ⟨?_, ?_⟩
  · intro addr obj here _
    rw [found addr obj here]
    exact .inl rfl
  · intro addr obj here _
    rw [found addr obj here]
    exact ⟨_, rfl⟩

theorem faithful_paidState : paidState.CopyFaithful where
  refund := rfl
  undebugged addr obj cached _ := by
    rw [(eq_of_objects_paidState cached).2]
    rfl
  recorded addr obj cached untaken := by
    rcases eq_of_objects_paidState cached with ⟨rfl, -⟩
    exact absurd (.inl (by decide +kernel)) untaken
  undoomed addr obj cached _ doomed := by
    rw [(eq_of_objects_paidState cached).2] at doomed
    exact absurd doomed (by decide +kernel)

theorem paid_copy_agrees :
    ∃ copied root committed, paidState.copy = .ok copied ∧
      OperationDB.Observes paidState copied ∧ copied.commit true = .ok (.ok root, committed) ∧
      OperationDB.Observes paidState { paidState with database := committed.database } := by
  have opens : newOperationDb emptyRoot emptyDatabase = some emptyState := rfl
  have reachable : paidState.Reachable :=
    (OperationDB.Reachable.opened opens).write (.addBalance 0x11 5) rfl
  have hashed : paidState.database.Hashed := by
    refine ⟨?_, ?_, ?_⟩ <;> intro key value stored <;> cases stored
  have tell : ∀ copied, paidState.copy = .ok copied → OperationDB.RootsTell paidState copied := by
    intro copied ran _ root first second rooted copyRooted
    exact OperationDB.tries_copy_eq reachable.listed reachable.objects ran
      faithful_paidState.undoomed rooted copyRooted
  rcases OperationDB.copy_observes_iff reachable hashed tell with
    ⟨copied, ran, agrees, independent⟩
  have computed : ∃ other root committed trie, paidState.copy = .ok other ∧
      other.commit true = .ok (.ok root, committed) ∧
      committed.database.accountTries = Function.update (fun _ => none) root (some trie) ∧
      committed.database.storageTries = (fun _ => none) ∧
      committed.database.codes = fun _ => none :=
    ⟨_, _, _, _, rfl, rfl, rfl, rfl, rfl⟩
  rcases computed with ⟨other, root, committed, trie, same, commits, accounts, storage, codes⟩
  cases ran.symm.trans same
  have shared : copied.database = emptyDatabase := by
    rcases OperationDB.copy_eq_ok ran with ⟨_, _, -, -, rfl⟩
    rfl
  have free : copied.database.CollisionFree committed.database := by
    have only : ∀ value ∈ held copied.database.accountTries committed.database.accountTries,
        value = trie := by
      rintro value ⟨key, stored | stored⟩
      · rw [shared] at stored
        cases stored
      · rw [accounts] at stored
        rcases update_eq_some stored with ⟨-, rfl⟩ | ⟨-, stored⟩
        · rfl
        · cases stored
    refine ⟨?_, ?_, ?_⟩
    · intro first mem second other _
      rw [only first mem, only second other]
    · rintro first ⟨key, stored | stored⟩
      · rw [shared] at stored
        cases stored
      · rw [storage] at stored
        cases stored
    · rintro first ⟨key, stored | stored⟩
      · rw [shared] at stored
        cases stored
      · rw [codes] at stored
        cases stored
  refine ⟨copied, root, committed, ran, agrees.mpr faithful_paidState, commits, ?_⟩
  exact (independent _ _ .start).2 committed (.commit true commits) free complete_paidState

end Octopus
